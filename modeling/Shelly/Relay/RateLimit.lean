import Mathlib.Data.List.GetD
import Shelly.Framework.Pool
import Shelly.Framework.Renewal
import Shelly.Framework.Tally
import Shelly.Relay.State

namespace Shelly.Relay

/-- What the relay limits, each for a client or a daemon and a minute. -/
inductive RateLimit
  | push | resolve | register | tokenRegister
  deriving DecidableEq

namespace RateLimit

def attempts : RateLimit → Nat
  | .push => 50
  | .resolve => 20
  | .register => 10
  | .tokenRegister => 10

def error : RateLimit → ApiError
  | .push => .rateLimited
  | .resolve => .resolveRateLimited
  | .register => .registerRateLimited
  | .tokenRegister => .tokenRegisterRateLimited

/-- What a handler makes of the count it is given. -/
def check (limit : RateLimit) (count : Nat) : Except ApiError Unit :=
  if limit.attempts < count then .error limit.error else .ok ()

def passes (limit : RateLimit) (count : Nat) : Bool := (limit.check count).isOk

theorem passes_iff (limit : RateLimit) (count : Nat) :
    limit.passes count = decide (count ≤ limit.attempts) := by
  rw [passes, check]
  split_ifs with hover
  · exact (decide_eq_false (Nat.not_le.mpr hover)).symm
  · exact (decide_eq_true (Nat.not_lt.mp hover)).symm

end RateLimit

def rateLimitTtlMs : Nat := 60 * 1000

/-- Which counter a client has for a minute, and when it was put into the cache. -/
structure CounterEntry where
  counter : Nat
  insertedAt : Nat
  deriving DecidableEq

/-- The cache, the clock that it goes by, and the values of all the counters that were ever made. A
handler keeps its counter when the cache has given it up. -/
structure RateLimitCache where
  upMs : Nat
  counters : Table (String × Nat) CounterEntry
  values : List Nat

/-- One call of `increment`. The minute is read by another clock than that of the cache. -/
inductive IncrementPc
  | entered (client : String)
  | looking (client : String) (minute : Nat)
  | counting (client : String) (minute counter : Nat)
  | counted (client : String) (minute count : Nat)
  deriving DecidableEq

/-- Time passes for the cache, or it gives an entry up. -/
inductive CacheEvent
  | tick (ms : Nat)
  | evict (key : String × Nat)

namespace RateLimitCache

/-- The counter of the key, which is a new one when the cache has none or one that is past its
time. -/
def getWith (cache : RateLimitCache) (key : String × Nat) : RateLimitCache × Nat :=
  match (cache.counters.lookup key).filter
    (fun entry => cache.upMs < entry.insertedAt + rateLimitTtlMs) with
  | some entry => (cache, entry.counter)
  | none =>
    let entry : CounterEntry := ⟨cache.values.length, cache.upMs⟩
    ({ cache with
        counters := cache.counters.insert key entry
        values := cache.values ++ [0] }, cache.values.length)

/-- A counter has 32 bits, and so has the count that is made of it. -/
def fetchAdd (cache : RateLimitCache) (counter : Nat) : RateLimitCache × Nat :=
  let value := cache.values.getD counter 0
  ({ cache with values := cache.values.set counter ((value + 1) % 2 ^ 32) }, (value + 1) % 2 ^ 32)

def opened (upMs : Nat) : RateLimitCache := ⟨upMs, .empty, []⟩

end RateLimitCache

/-- A call reads the clock, has its counter looked up and increments it, each step by itself. -/
def limiting : Tasking RateLimitCache IncrementPc Nat CacheEvent where
  init cache := cache = .opened cache.upMs
  start
    | .entered _ => true
    | _ => false
  cancellable _ := false
  advance nowMs _ pc cache :=
    match pc with
    | .entered client => some (cache, .looking client (nowMs / 60000))
    | .looking client minute =>
      let (cache, counter) := cache.getWith (client, minute)
      some (cache, .counting client minute counter)
    | .counting client minute counter =>
      let (cache, count) := cache.fetchAdd counter
      some (cache, .counted client minute count)
    | .counted _ _ _ => none
  environment event cache :=
    match event with
    | .tick ms => some ({ cache with upMs := cache.upMs + ms }, true)
    | .evict key => some ({ cache with counters := cache.counters.erase key }, true)

/-- A counter that was made, for which client and minute and when. -/
structure Made where
  key : String × Nat
  counter : Nat
  insertedAt : Nat
  deriving DecidableEq

/-- A count that was given out. -/
structure Counted where
  key : String × Nat
  counter : Nat
  count : Nat
  deriving DecidableEq

/-- What has happened, the newest first: the keys that were looked up and when, the counters that
were made, and the counts that were given out. -/
structure RateHistory where
  lookups : List ((String × Nat) × Nat)
  made : List Made
  counts : List Counted

def Made.renewal (m : Made) : Renewal Nat :=
  ⟨m.counter, m.insertedAt, m.insertedAt + rateLimitTtlMs⟩

namespace RateHistory

def madeFor (w : RateHistory) (key : String × Nat) : List Made := w.made.filter (·.key = key)

def attempts (w : RateHistory) (key : String × Nat) : Nat := w.counts.countP (·.key = key)

def passed (w : RateHistory) (limit : RateLimit) (key : String × Nat) : Nat :=
  w.counts.countP fun d => d.key = key && limit.passes d.count

def look (w : RateHistory) (cache : RateLimitCache) (key : String × Nat) (counter : Nat) :
    RateHistory :=
  { w with
    lookups := (key, cache.upMs) :: w.lookups
    made :=
      if counter = cache.values.length then ⟨key, counter, cache.upMs⟩ :: w.made else w.made }

def note (a : Move IncrementPc Nat CacheEvent) (p q : Pool RateLimitCache IncrementPc)
    (w : RateHistory) : RateHistory :=
  match a with
  | .advance i _ =>
    match p.task i, q.task i with
    | some (.looking client minute), some (.counting _ _ counter) =>
      w.look p.shared (client, minute) counter
    | some (.counting client minute counter), some (.counted _ _ count) =>
      { w with counts := ⟨(client, minute), counter, count⟩ :: w.counts }
    | _, _ => w
  | _ => w

end RateHistory

def watchedLimiter :
    Machine (Pool RateLimitCache IncrementPc × RateHistory) (Move IncrementPc Nat CacheEvent) :=
  limiting.machine.watched (fun _ => ⟨[], [], []⟩) RateHistory.note

/-- The cache gives up nothing that is not past its time. -/
def keepsLiving (p : Pool RateLimitCache IncrementPc × RateHistory) :
    Move IncrementPc Nat CacheEvent → Bool
  | .environment (.evict key) =>
    (p.1.shared.counters.lookup key).all fun entry =>
      decide (entry.insertedAt + rateLimitTtlMs ≤ p.1.shared.upMs)
  | _ => true

namespace RateLimitCache

section GetWith

variable {cache : RateLimitCache} {key : String × Nat}

/-- A lookup finds a living entry, or makes a counter because there is none. -/
theorem getWith_cases (cache : RateLimitCache) (key : String × Nat) :
    (∃ entry, cache.counters.lookup key = some entry ∧
      cache.upMs < entry.insertedAt + rateLimitTtlMs ∧
      cache.getWith key = (cache, entry.counter)) ∨
    ((∀ entry ∈ cache.counters.lookup key, entry.insertedAt + rateLimitTtlMs ≤ cache.upMs) ∧
      cache.getWith key =
        ({ cache with
            counters := cache.counters.insert key ⟨cache.values.length, cache.upMs⟩
            values := cache.values ++ [0] }, cache.values.length)) := by
  unfold getWith
  split
  · rename_i entry hliving
    obtain ⟨hentry, htime⟩ := Option.filter_eq_some_iff.mp hliving
    exact .inl ⟨entry, hentry, of_decide_eq_true htime, rfl⟩
  · rename_i hnone
    refine .inr ⟨fun entry hentry => ?_, rfl⟩
    have hpast := Option.filter_eq_none_iff.mp hnone entry hentry
    exact Nat.not_lt.mp fun htime => hpast (decide_eq_true htime)

end GetWith

end RateLimitCache

namespace RateHistory

/-- The entries of the cache are the newest counters of their keys, and a counter is made only when
the one before it is past its time. Every counter has given out the counts from one on. -/
structure Sound (p : Pool RateLimitCache IncrementPc) (w : RateHistory) : Prop where
  numbered : ∀ m ∈ w.made, m.counter < p.shared.values.length
  distinct : (w.made.map Made.counter).Nodup
  entries : ∀ key entry, p.shared.counters.lookup key = some entry →
    (w.madeFor key).head? = some ⟨key, entry.counter, entry.insertedAt⟩
  current : ∀ key, ∀ newest ∈ (w.madeFor key).head?,
    p.shared.counters.lookup key = some ⟨newest.counter, newest.insertedAt⟩ ∨
      newest.insertedAt + rateLimitTtlMs ≤ p.shared.upMs
  renewed : ∀ key, Renewed ((w.madeFor key).map Made.renewal)
  seen : ∀ m ∈ w.made, (m.key, m.insertedAt) ∈ w.lookups
  tasks : ∀ i client minute counter, p.task i = some (.counting client minute counter) →
    ∃ m ∈ w.made, m.key = (client, minute) ∧ m.counter = counter
  counted : ∀ d ∈ w.counts, ∃ m ∈ w.made, m.key = d.key ∧ m.counter = d.counter
  values : ∀ k, p.shared.values.getD k 0 = w.counts.countP (·.counter = k) % 2 ^ 32
  ranked : w.counts.length < 2 ^ 32 → Numbered Counted.counter Counted.count w.counts

variable {p q : Pool RateLimitCache IncrementPc} {w : RateHistory} {i : Nat} {pc : IncrementPc}

theorem sound_init (h : limiting.machine.init p) : Sound p ⟨[], [], []⟩ where
  numbered := nofun
  distinct := List.nodup_nil
  entries key entry hentry := by
    rw [h.1] at hentry
    cases (Table.lookup_empty key).symm.trans hentry
  current := nofun
  renewed _ := .nil
  seen := nofun
  tasks i _ _ _ hi := by cases (h.2 i).symm.trans hi
  counted := nofun
  values k := by
    rw [h.1]
    rfl
  ranked _ := .nil

/-- Whatever leaves the cache alone and puts no call before its counter keeps everything. -/
theorem Sound.same (h : Sound p w) (hshared : q.shared = p.shared)
    (htasks : ∀ i client minute counter, q.task i = some (.counting client minute counter) →
      p.task i = some (.counting client minute counter)) : Sound q w where
  numbered := hshared ▸ h.numbered
  distinct := h.distinct
  entries := hshared ▸ h.entries
  current := hshared ▸ h.current
  renewed := h.renewed
  seen := h.seen
  tasks i client minute counter hi := h.tasks i client minute counter (htasks i _ _ _ hi)
  counted := h.counted
  values := hshared ▸ h.values
  ranked := h.ranked

theorem Sound.tick (h : Sound p w) (ms : Nat) :
    Sound (p.setShared { p.shared with upMs := p.shared.upMs + ms }) w where
  numbered := h.numbered
  distinct := h.distinct
  entries := h.entries
  current key newest hnewest :=
    (h.current key newest hnewest).imp_right fun hpast => hpast.trans (Nat.le_add_right _ _)
  renewed := h.renewed
  seen := h.seen
  tasks := h.tasks
  counted := h.counted
  values := h.values
  ranked := h.ranked

theorem Sound.evict {key : String × Nat} (h : Sound p w)
    (hpast : ∀ entry ∈ p.shared.counters.lookup key,
      entry.insertedAt + rateLimitTtlMs ≤ p.shared.upMs) :
    Sound (p.setShared { p.shared with counters := p.shared.counters.erase key }) w where
  numbered := h.numbered
  distinct := h.distinct
  entries key' entry hentry := by
    simp only [Pool.setShared_shared, Table.lookup_erase, Option.ite_none_left_eq_some] at hentry
    exact h.entries key' entry hentry.2
  current key' newest hnewest := by
    simp only [Pool.setShared_shared]
    rcases h.current key' newest hnewest with hcurrent | hgone
    · by_cases hkey : key' = key
      · subst hkey
        exact .inr (hpast _ hcurrent)
      · exact .inl ((Table.lookup_erase_ne _ hkey).trans hcurrent)
    · exact .inr hgone
  renewed := h.renewed
  seen := h.seen
  tasks := h.tasks
  counted := h.counted
  values := h.values
  ranked := h.ranked

/-- A call that finds its counter in the cache goes on with it. -/
theorem Sound.find {client : String} {minute : Nat} {entry : CounterEntry} (h : Sound p w)
    (hentry : p.shared.counters.lookup (client, minute) = some entry) :
    Sound (p.setTask i (.counting client minute entry.counter))
      (w.look p.shared (client, minute) entry.counter) := by
  have hmade : ⟨(client, minute), entry.counter, entry.insertedAt⟩ ∈ w.made :=
    (List.mem_filter.mp (List.mem_of_mem_head? (h.entries _ entry hentry))).1
  have hold : w.look p.shared (client, minute) entry.counter =
      { w with lookups := ((client, minute), p.shared.upMs) :: w.lookups } := by
    rw [look, if_neg (h.numbered _ hmade).ne]
  rw [hold]
  exact {
    numbered := h.numbered
    distinct := h.distinct
    entries := h.entries
    current := h.current
    renewed := h.renewed
    seen := fun m hm => List.mem_cons_of_mem _ (h.seen m hm)
    tasks := by
      intro j client' minute' counter hj
      rw [Pool.setTask_task] at hj
      split_ifs at hj
      · cases hj
        exact ⟨_, hmade, rfl, rfl⟩
      · exact h.tasks j client' minute' counter hj
    counted := h.counted
    values := h.values
    ranked := h.ranked }

/-- A call that finds no living counter makes one. -/
theorem Sound.make {client : String} {minute : Nat} (h : Sound p w)
    (hpast : ∀ entry ∈ p.shared.counters.lookup (client, minute),
      entry.insertedAt + rateLimitTtlMs ≤ p.shared.upMs) :
    Sound
      ((p.setShared { p.shared with
        counters := p.shared.counters.insert (client, minute)
          ⟨p.shared.values.length, p.shared.upMs⟩
        values := p.shared.values ++ [0] }).setTask i
        (.counting client minute p.shared.values.length))
      (w.look p.shared (client, minute) p.shared.values.length) := by
  have hnew : w.look p.shared (client, minute) p.shared.values.length =
      { w with
        lookups := ((client, minute), p.shared.upMs) :: w.lookups
        made := ⟨(client, minute), p.shared.values.length, p.shared.upMs⟩ :: w.made } := by
    rw [look, if_pos rfl]
  rw [hnew]
  have hmadeFor (key : String × Nat) :
      madeFor { w with
        lookups := ((client, minute), p.shared.upMs) :: w.lookups
        made := ⟨(client, minute), p.shared.values.length, p.shared.upMs⟩ :: w.made } key =
      if (client, minute) = key then
        ⟨(client, minute), p.shared.values.length, p.shared.upMs⟩ :: w.madeFor key
      else w.madeFor key := by
    simp only [madeFor, List.filter_cons, decide_eq_true_eq]
  exact {
    numbered := by
      simp only [Pool.setTask_shared, Pool.setShared_shared, List.length_append,
        List.length_singleton]
      refine List.forall_mem_cons.mpr ⟨Nat.lt_succ_self _, fun m hm => ?_⟩
      exact Nat.lt_succ_of_lt (h.numbered m hm)
    distinct := by
      refine List.nodup_cons.mpr ⟨fun hmem => ?_, h.distinct⟩
      obtain ⟨m, hm, hcounter⟩ := List.mem_map.mp hmem
      exact absurd hcounter (h.numbered m hm).ne
    entries := by
      intro key entry hentry
      simp only [Pool.setTask_shared, Pool.setShared_shared, Table.lookup_insert] at hentry
      rw [hmadeFor]
      split_ifs at hentry with hkey
      · cases hentry
        rw [if_pos hkey.symm, hkey]
        rfl
      · rw [if_neg (Ne.symm hkey)]
        exact h.entries key entry hentry
    current := by
      intro key newest hnewest
      simp only [Pool.setTask_shared, Pool.setShared_shared, Table.lookup_insert]
      rw [hmadeFor] at hnewest
      split_ifs at hnewest with hkey
      · cases hnewest
        exact .inl (if_pos hkey.symm)
      · rw [if_neg (Ne.symm hkey)]
        exact h.current key newest hnewest
    renewed := by
      intro key
      rw [hmadeFor]
      split_ifs with hkey
      · rw [List.map_cons]
        refine (h.renewed key).renew (Nat.le_add_right _ _) ?_
        intro newest hnewest
        rw [List.head?_map] at hnewest
        obtain ⟨m, hm, rfl⟩ := Option.map_eq_some_iff.mp hnewest
        rcases h.current key m hm with hcurrent | hgone
        · subst hkey
          exact hpast _ hcurrent
        · exact hgone
      · exact h.renewed key
    seen := by
      refine List.forall_mem_cons.mpr ⟨List.mem_cons_self, fun m hm => ?_⟩
      exact List.mem_cons_of_mem _ (h.seen m hm)
    tasks := by
      intro j client' minute' counter hj
      rw [Pool.setTask_task] at hj
      split_ifs at hj
      · cases hj
        exact ⟨_, List.mem_cons_self, rfl, rfl⟩
      · obtain ⟨m, hm, hsame⟩ := h.tasks j client' minute' counter hj
        exact ⟨m, List.mem_cons_of_mem _ hm, hsame⟩
    counted := by
      intro d hd
      obtain ⟨m, hm, hsame⟩ := h.counted d hd
      exact ⟨m, List.mem_cons_of_mem _ hm, hsame⟩
    values := by
      intro k
      have hkept : (p.shared.values ++ [0]).getD k 0 = p.shared.values.getD k 0 := by
        rcases Nat.lt_trichotomy k p.shared.values.length with hk | hk | hk
        · exact List.getD_append _ _ _ _ hk
        · simp [hk]
        · rw [List.getD_eq_default _ _ hk.le, List.getD_eq_default]
          rw [List.length_append, List.length_singleton]
          exact hk
      simp only [Pool.setTask_shared, Pool.setShared_shared]
      rw [hkept]
      exact h.values k
    ranked := h.ranked }

/-- A counter gives out its next count. -/
theorem Sound.count {client : String} {minute counter : Nat} (h : Sound p w)
    (hi : p.task i = some (.counting client minute counter)) :
    Sound
      ((p.setShared (p.shared.fetchAdd counter).1).setTask i
        (.counted client minute (p.shared.fetchAdd counter).2))
      { w with
        counts := ⟨(client, minute), counter, (p.shared.fetchAdd counter).2⟩ :: w.counts } := by
  obtain ⟨m, hm, hkey, rfl⟩ := h.tasks i client minute counter hi
  have hmade : m.counter < p.shared.values.length := h.numbered m hm
  have hcount : (p.shared.fetchAdd m.counter).2 =
      (w.counts.countP (·.counter = m.counter) + 1) % 2 ^ 32 := by
    rw [RateLimitCache.fetchAdd, h.values, Nat.mod_add_mod]
  have hvalues (k : Nat) : (p.shared.fetchAdd m.counter).1.values.getD k 0 =
      if k = m.counter then (p.shared.fetchAdd m.counter).2 else p.shared.values.getD k 0 := by
    simp only [RateLimitCache.fetchAdd, List.getD_eq_getElem?_getD, List.getElem?_set]
    split_ifs with hk hsame hother
    · rfl
    · exact absurd hk.symm hsame
    · exact absurd hother.symm hk
    · rfl
  have hlength : (p.shared.fetchAdd m.counter).1.values.length = p.shared.values.length :=
    List.length_set
  exact {
    numbered := fun m' hm' => (h.numbered m' hm').trans_eq hlength.symm
    distinct := h.distinct
    entries := h.entries
    current := h.current
    renewed := h.renewed
    seen := h.seen
    tasks := by
      intro j client' minute' counter hj
      rw [Pool.setTask_task] at hj
      split_ifs at hj
      · cases hj
      · exact h.tasks j client' minute' counter hj
    counted := List.forall_mem_cons.mpr ⟨⟨m, hm, hkey, rfl⟩, h.counted⟩
    values := by
      intro k
      simp only [Pool.setTask_shared, Pool.setShared_shared]
      rw [hvalues, List.countP_cons]
      split_ifs with hk hsame hother
      · rw [hcount, hk]
      · exact absurd (decide_eq_true hk.symm) hsame
      · exact absurd (of_decide_eq_true hother).symm hk
      · exact h.values k
    ranked := by
      intro hfew
      rw [List.length_cons] at hfew
      refine .cons (h.ranked (by omega)) ?_
      have hbelow : w.counts.countP (·.counter = m.counter) ≤ w.counts.length :=
        List.countP_le_length
      dsimp only
      rw [hcount, Nat.mod_eq_of_lt (by omega)] }

theorem Sound.step {a : Move IncrementPc Nat CacheEvent} (h : Sound p w)
    (hkeeps : keepsLiving (p, w) a = true) (hs : limiting.machine.step a p = some q) :
    Sound q (w.note a p q) := by
  cases Tasking.stepped_of_step hs with
  | spawn i pc hstart hi =>
    refine h.same rfl fun j client minute counter hj => ?_
    rw [Pool.setTask_task] at hj
    split_ifs at hj
    · cases hj
      cases hstart
    · exact hj
  | advance i c pc pc' cache hi hadvance =>
    cases pc with
    | entered client =>
      cases hadvance
      have hnote : w.note (.advance i c) p ((p.setShared p.shared).setTask i
          (.looking client (c / 60000))) = w := by
        simp only [note, hi]
      rw [hnote]
      refine h.same rfl fun j client' minute counter hj => ?_
      rw [Pool.setTask_task] at hj
      split_ifs at hj
      · cases hj
      · exact hj
    | looking client minute =>
      simp only [limiting, Option.some.injEq, Prod.mk.injEq] at hadvance
      obtain ⟨rfl, rfl⟩ := hadvance
      simp only [note, hi, Pool.setTask_task, if_true]
      rcases p.shared.getWith_cases (client, minute) with ⟨entry, hentry, -, hfound⟩ | ⟨hpast, hnew⟩
      · rw [hfound]
        exact h.find hentry
      · rw [hnew]
        exact h.make hpast
    | counting client minute counter =>
      simp only [limiting, Option.some.injEq, Prod.mk.injEq] at hadvance
      obtain ⟨rfl, rfl⟩ := hadvance
      simp only [note, hi, Pool.setTask_task, if_true]
      exact h.count hi
    | counted client minute count => cases hadvance
  | drop i pc hi hcancellable => cases hcancellable
  | keep e cache hevent =>
    cases e with
    | tick ms =>
      cases hevent
      exact h.tick ms
    | evict key =>
      cases hevent
      refine h.evict fun entry hentry => ?_
      have hgone := (Option.all_eq_true _ _).mp hkeeps entry hentry
      exact of_decide_eq_true hgone
  | clear e cache hevent =>
    cases e with
    | tick ms => cases hevent
    | evict key => cases hevent

theorem sound_of_reachable {p : Pool RateLimitCache IncrementPc × RateHistory}
    (h : watchedLimiter.ReachableWhen (fun p a => keepsLiving p a = true) p) : Sound p.1 p.2 := by
  refine h.invariant (I := fun p => Sound p.1 p.2) ?_ ?_
  · rintro p ⟨hinit, hempty⟩
    rw [hempty]
    exact sound_init hinit
  · intro p a q hp hkeeps hstep
    obtain ⟨hmoved, hhistory⟩ := Machine.watched_step hstep
    rw [hhistory]
    exact hp.step hkeeps hmoved

theorem Sound.eq_of_counter {m m' : Made} (h : Sound p w) (hm : m ∈ w.made) (hm' : m' ∈ w.made)
    (hcounter : m.counter = m'.counter) : m = m' :=
  List.inj_on_of_nodup_map h.distinct hm hm' hcounter

/-- So many counters can a key have had. -/
theorem Sound.length_madeFor_le (h : Sound p w) (key : String × Nat) {start stop : Nat}
    (hspan : ∀ t, (key, t) ∈ w.lookups → start ≤ t ∧ t ≤ stop) :
    (w.madeFor key).length ≤ (stop - start) / rateLimitTtlMs + 1 := by
  have hall : ((w.madeFor key).map Made.renewal).filter (fun _ => true) =
      (w.madeFor key).map Made.renewal := List.filter_eq_self.mpr fun _ _ => rfl
  rw [← List.length_map Made.renewal, ← hall]
  refine (h.renewed key).length_filter_le _ (by decide) ?_ ?_
  · intro r hr _
    obtain ⟨m, hm, rfl⟩ := List.mem_map.mp hr
    obtain ⟨hmade, hkey⟩ := List.mem_filter.mp hm
    have hseen := h.seen m hmade
    rw [of_decide_eq_true hkey] at hseen
    exact hspan m.insertedAt hseen
  · intro r hr _ t _ hdue
    obtain ⟨m, -, rfl⟩ := List.mem_map.mp hr
    exact hdue

theorem Sound.passed_le (h : Sound p w) (limit : RateLimit) (key : String × Nat)
    (hfew : w.counts.length < 2 ^ 32) :
    w.passed limit key ≤ limit.attempts * (w.madeFor key).length := by
  have hbound := (h.ranked hfew).countP_le_mul limit.attempts ((w.madeFor key).map Made.counter)
    (fun d => decide (d.key = key)) ?_
  · rw [List.length_map] at hbound
    simpa only [passed, RateLimit.passes_iff] using hbound
  · intro d hd hkey
    obtain ⟨m, hm, hsame, hcounter⟩ := h.counted d hd
    have hmade : m ∈ w.madeFor key :=
      List.mem_filter.mpr ⟨hm, decide_eq_true (hsame.trans (of_decide_eq_true hkey))⟩
    exact hcounter ▸ List.mem_map_of_mem hmade

/-- With one counter all the counts of a key are its counts. -/
theorem Sound.passed_eq (h : Sound p w) (limit : RateLimit) (key : String × Nat)
    (hfew : w.counts.length < 2 ^ 32) (hone : (w.madeFor key).length ≤ 1) :
    w.passed limit key = min limit.attempts (w.attempts key) := by
  cases hmade : w.madeFor key with
  | nil =>
    have hnone (d : Counted) (hd : d ∈ w.counts) : d.key ≠ key := by
      intro hkey
      obtain ⟨m, hm, hsame, -⟩ := h.counted d hd
      have hmem : m ∈ w.madeFor key :=
        List.mem_filter.mpr ⟨hm, decide_eq_true (hsame.trans hkey)⟩
      rw [hmade] at hmem
      cases hmem
    have hattempts : w.attempts key = 0 :=
      List.countP_eq_zero.mpr fun d hd hkey => hnone d hd (of_decide_eq_true hkey)
    have hpassed := h.passed_le limit key hfew
    rw [hmade, List.length_nil, Nat.mul_zero] at hpassed
    rw [hattempts, Nat.le_zero.mp hpassed, Nat.min_zero]
  | cons m rest =>
    have hrest : rest = [] := by
      rw [hmade, List.length_cons] at hone
      exact List.eq_nil_of_length_eq_zero (by omega)
    subst hrest
    obtain ⟨hm, hkey⟩ := List.mem_filter.mp (hmade ▸ List.mem_cons_self : m ∈ w.madeFor key)
    have hsame (d : Counted) (hd : d ∈ w.counts) : d.key = key ↔ d.counter = m.counter := by
      obtain ⟨m', hm', hkey', hcounter⟩ := h.counted d hd
      constructor
      · intro hd'
        have hmem : m' ∈ w.madeFor key :=
          List.mem_filter.mpr ⟨hm', decide_eq_true (hkey'.trans hd')⟩
        rw [hmade, List.mem_singleton] at hmem
        rw [← hcounter, hmem]
      · intro hd'
        have heq := h.eq_of_counter hm' hm (hcounter.trans hd')
        rw [← hkey', heq, of_decide_eq_true hkey]
    have hattempts : w.attempts key = w.counts.countP (·.counter = m.counter) :=
      List.countP_congr fun d hd => by simp only [hsame d hd]
    have hpassed : w.passed limit key =
        w.counts.countP (fun d => d.counter = m.counter ∧ d.count ≤ limit.attempts) :=
      List.countP_congr fun d hd => by
        simp only [RateLimit.passes_iff, Bool.and_eq_true, decide_eq_true_eq, hsame d hd]
    rw [hpassed, hattempts]
    exact (h.ranked hfew).countP_within limit.attempts m.counter

end RateHistory

/-- In every run of the calls of a limiter whose cache gives up no counter before its time, whatever
minutes the other clock reads: a client is let through its limit of times for a minute and each
sixty seconds over which that minute is looked up, and when it is looked up within sixty seconds
the first attempts up to the limit are let through and all others are not. -/
theorem rate_limit_holds (limit : RateLimit) {p : Pool RateLimitCache IncrementPc × RateHistory}
    (h : watchedLimiter.ReachableWhen (fun p a => keepsLiving p a = true) p)
    (key : String × Nat) (start stop : Nat)
    (hspan : ∀ t, (key, t) ∈ p.2.lookups → start ≤ t ∧ t ≤ stop)
    (hfew : p.2.counts.length < 2 ^ 32) :
    p.2.passed limit key ≤ limit.attempts * ((stop - start) / rateLimitTtlMs + 1) ∧
      (stop < start + rateLimitTtlMs →
        p.2.passed limit key = min limit.attempts (p.2.attempts key)) := by
  have hsound := RateHistory.sound_of_reachable h
  have hmade := hsound.length_madeFor_le key hspan
  constructor
  · exact (hsound.passed_le limit key hfew).trans (Nat.mul_le_mul_left _ hmade)
  · intro hshort
    refine hsound.passed_eq limit key hfew ?_
    have hwithin : (stop - start) / rateLimitTtlMs = 0 := by
      refine Nat.div_eq_of_lt ?_
      have hpositive : 0 < rateLimitTtlMs := by decide
      omega
    omega

section Traces

/-- A daemon registers a token twelve times within a minute, all looked up before any is counted. -/
private def dozen : List (Move IncrementPc Nat CacheEvent) :=
  List.flatten [(List.range 12).map fun i => .spawn i (.entered "daemon"),
    (List.range 12).flatMap fun i => [.advance i 60000, .environment (.tick 1), .advance i 0],
    (List.range 12).map fun i => .advance i 0]

theorem rate_limit_holds_dozen :
    ∃ p : Pool RateLimitCache IncrementPc × RateHistory, p.2.attempts ("daemon", 1) = 12 ∧
      p.2.passed .tokenRegister ("daemon", 1) =
        min RateLimit.tokenRegister.attempts (p.2.attempts ("daemon", 1)) := by
  obtain ⟨p, hreach, hattempts, hspan, hfew⟩ :=
    watchedLimiter.exists_reachable_of_exec (fun p a => keepsLiving p a = true)
      (fun p => p.2.attempts ("daemon", 1) = 12 ∧
        (∀ l ∈ p.2.lookups, l.1 = ("daemon", 1) → 0 ≤ l.2 ∧ l.2 ≤ 20) ∧ p.2.counts.length = 12)
      dozen (Machine.watched_init (Tasking.init_empty (show limiting.init (.opened 0) from rfl)))
      (by decide)
  have hwithin (t : Nat) (ht : (("daemon", 1), t) ∈ p.2.lookups) : 0 ≤ t ∧ t ≤ 20 :=
    hspan _ ht rfl
  exact ⟨p, hattempts, (rate_limit_holds .tokenRegister hreach ("daemon", 1) 0 20 hwithin
    (by omega)).2 (by decide)⟩

end Traces

end Shelly.Relay
