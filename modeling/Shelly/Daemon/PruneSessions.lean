import Shelly.Daemon.StoredPayload
import Shelly.Framework.Table
import Shelly.Protocol.Encoding

namespace Shelly.Daemon.Prune

open Serde Serde.Derived

/-- What is kept of a session that no longer runs. -/
structure StoredSession where
  summary : Wire.SessionSummary
  scrollbackStartSeq : UInt64
  scrollback : List UInt8
  exitCode : Option Int32
  deriving DecidableEq

instance : Derived StoredSession where
  shape := .struct (fields [("summary", shape Wire.SessionSummary), ("scrollback_start_seq", .u64),
    ("scrollback", .seq .u8), ("exit_code", .option .i32)])
  wellFormed := by decide
  toVal a := (toVal a.summary, a.scrollbackStartSeq, a.scrollback, a.exitCode, ())
  ofVal := fun (summary, scrollbackStartSeq, scrollback, exitCode, ()) =>
    ⟨ofVal summary, scrollbackStartSeq, scrollback, exitCode⟩
  ofVal_toVal a := by simp

def maxStoredSessions : Nat := 256

def sessionRetentionMs : Nat := 7 * 24 * 60 * 60 * 1000

/-- The rows of the sessions table, by the identifiers of the sessions. -/
abbrev Rows := Table String (List UInt8)

/-- The payload that `save_session` stores. -/
def savedPayload (A : Aead) (order : HashOrder) (mode : PersistenceMode) (nonce : Nonce)
    (session : StoredSession) : Except String (List UInt8) :=
  match encodeBincode order session with
  | some plaintext => encodePayload A mode nonce plaintext
  | none => .error "serialize stored session"

/-- A row with the session that was saved in it and how. -/
structure Written (A : Aead) (order : HashOrder) where
  session : StoredSession
  mode : PersistenceMode
  nonce : Nonce
  payload : List UInt8
  saved : savedPayload A order mode nonce session = .ok payload

variable {A : Aead} {order : HashOrder}

theorem Written.exists_plaintext (w : Written A order) : ∃ plaintext,
    encodeBincode order w.session = some plaintext ∧
      encodePayload A w.mode w.nonce plaintext = .ok w.payload := by
  have hsaved := w.saved
  unfold savedPayload at hsaved
  split at hsaved
  · next plaintext hplaintext => exact ⟨plaintext, hplaintext, hsaved⟩
  · cases hsaved

/-- The session in a row, as far as the current mode can read it. -/
def readSession (A : Aead) (order : HashOrder) (mode : PersistenceMode) (payload : List UInt8) :
    Option StoredSession :=
  match decodePayload A mode payload with
  | .ok plaintext => decodeBincode StoredSession order plaintext
  | .error _ => none

def lastActivity (session : StoredSession) : Nat := session.summary.lastActivity.toNat

def readActivity (A : Aead) (order : HashOrder) (mode : PersistenceMode) (payload : List UInt8) :
    Option Nat :=
  (readSession A order mode payload).map lastActivity

/-- The order of `Reverse(last_activity)`: the most recent first, unreadable rows last. -/
def newerFirst (a b : String × Option Nat) : Bool :=
  match a.2, b.2 with
  | _, none => true
  | none, some _ => false
  | some x, some y => y ≤ x

/-- The keys that the loop over the sorted rows removes, when so many are retained already. -/
def swept (cutoff maxSessions : Nat) : Nat → List (String × Option Nat) → List String
  | _, [] => []
  | retained, (key, activity) :: rows =>
    if activity.any (cutoff ≤ ·) && retained < maxSessions then
      swept cutoff maxSessions (retained + 1) rows
    else key :: swept cutoff maxSessions retained rows

/-- What the loop sees of the rows, in its order. -/
def readRows (A : Aead) (order : HashOrder) (mode : PersistenceMode) (rows : Rows) :
    List (String × Option Nat) :=
  (rows.entries.map fun e => (e.1, readActivity A order mode e.2)).mergeSort newerFirst

def removedKeys (A : Aead) (order : HashOrder) (mode : PersistenceMode)
    (retention now maxSessions : Nat) (rows : Rows) : List String :=
  swept (now - retention) maxSessions 0 (readRows A order mode rows)

/-- The rows that are left and the number of the removed ones. -/
def pruneSessionsWithLimit (A : Aead) (order : HashOrder) (mode : PersistenceMode)
    (retention now maxSessions : Nat) (rows : Rows) : Rows × Nat :=
  let remove := removedKeys A order mode retention now maxSessions rows
  (remove.foldl Table.erase rows, remove.length)

def pruneSessions (A : Aead) (order : HashOrder) (mode : PersistenceMode) (now : Nat) (rows : Rows) :
    Rows × Nat :=
  pruneSessionsWithLimit A order mode sessionRetentionMs now maxStoredSessions rows

theorem newerFirst_trans (a b c : String × Option Nat) (hab : newerFirst a b = true)
    (hbc : newerFirst b c = true) : newerFirst a c = true := by
  obtain ⟨_, a⟩ := a
  obtain ⟨_, b⟩ := b
  obtain ⟨_, c⟩ := c
  cases a <;> cases b <;> cases c <;> simp_all [newerFirst]
  omega

theorem newerFirst_total (a b : String × Option Nat) :
    (newerFirst a b || newerFirst b a) = true := by
  obtain ⟨_, a⟩ := a
  obtain ⟨_, b⟩ := b
  cases a <;> cases b <;> simp [newerFirst]
  omega

/-- A row is removed only if it is too old or unreadable, or there are enough rows before it. -/
theorem split_of_mem_swept {cutoff maxSessions retained : Nat} {rows : List (String × Option Nat)}
    {key : String} (h : key ∈ swept cutoff maxSessions retained rows) :
    ∃ before activity after, rows = before ++ (key, activity) :: after ∧
      (activity.any (cutoff ≤ ·) = true → maxSessions ≤ retained + before.length) := by
  induction rows generalizing retained with
  | nil => cases h
  | cons row rows ih =>
    obtain ⟨key', activity'⟩ := row
    rw [swept] at h
    split_ifs at h with hkeep
    · obtain ⟨before, activity, after, rfl, hmax⟩ := ih h
      refine ⟨(key', activity') :: before, activity, after, rfl, fun hactive => ?_⟩
      have := hmax hactive
      rw [List.length_cons]
      omega
    · rcases List.mem_cons.mp h with rfl | h
      · refine ⟨[], activity', rows, rfl, fun hactive => ?_⟩
        rw [hactive, Bool.true_and, decide_eq_true_iff] at hkeep
        exact Nat.not_lt.mp hkeep
      · obtain ⟨before, activity, after, rfl, hmax⟩ := ih h
        refine ⟨(key', activity') :: before, activity, after, rfl, fun hactive => ?_⟩
        have := hmax hactive
        rw [List.length_cons]
        omega

theorem mem_swept_of_unreadable {cutoff maxSessions retained : Nat}
    {rows : List (String × Option Nat)} {key : String} (h : (key, none) ∈ rows) :
    key ∈ swept cutoff maxSessions retained rows := by
  induction rows generalizing retained with
  | nil => cases h
  | cons row rows ih =>
    rw [swept]
    rcases List.mem_cons.mp h with rfl | h
    · exact List.mem_cons_self
    · split_ifs
      · exact ih h
      · exact List.mem_cons_of_mem _ (ih h)

theorem swept_sublist (cutoff maxSessions retained : Nat) (rows : List (String × Option Nat)) :
    (swept cutoff maxSessions retained rows).Sublist (rows.map (·.1)) := by
  induction rows generalizing retained with
  | nil => exact .slnil
  | cons row rows ih =>
    rw [swept]
    split_ifs
    · exact (ih _).cons _
    · exact (ih _).cons_cons _

section

variable {mode : PersistenceMode} {retention now maxSessions : Nat} {rows : Rows}

theorem mem_readRows {key : String} {activity : Option Nat} :
    (key, activity) ∈ readRows A order mode rows ↔
      ∃ payload, rows.lookup key = some payload ∧ readActivity A order mode payload = activity := by
  rw [readRows, List.mem_mergeSort, List.mem_map]
  constructor
  · rintro ⟨⟨key', payload⟩, hm, heq⟩
    obtain ⟨rfl, rfl⟩ := Prod.mk.inj heq
    exact ⟨payload, Table.mem_entries.mp hm, rfl⟩
  · rintro ⟨payload, hlookup, rfl⟩
    exact ⟨⟨key, payload⟩, Table.mem_entries.mpr hlookup, rfl⟩

theorem nodup_keys_readRows (A : Aead) (order : HashOrder) (mode : PersistenceMode) (rows : Rows) :
    ((readRows A order mode rows).map (·.1)).Nodup := by
  have hperm := List.mergeSort_perm
    (rows.entries.map fun e => (e.1, readActivity A order mode e.2)) newerFirst
  refine ((hperm.map (·.1)).nodup_iff).mpr ?_
  rw [List.map_map]
  exact rows.nodupKeys

theorem pairwise_readRows (A : Aead) (order : HashOrder) (mode : PersistenceMode) (rows : Rows) :
    (readRows A order mode rows).Pairwise (fun a b => newerFirst a b = true) :=
  List.pairwise_mergeSort newerFirst_trans newerFirst_total _

theorem contains_of_mem_removedKeys {key : String}
    (h : key ∈ removedKeys A order mode retention now maxSessions rows) :
    rows.contains key = true := by
  obtain ⟨⟨key', activity⟩, hm, rfl⟩ := List.mem_map.mp ((swept_sublist _ _ _ _).subset h)
  obtain ⟨payload, hlookup, -⟩ := mem_readRows.mp hm
  exact Table.contains_eq_true.mpr ⟨payload, hlookup⟩

/-- The rows that are left are as they were, and the rows removed are counted. -/
theorem lookup_pruneSessionsWithLimit (key : String) :
    (pruneSessionsWithLimit A order mode retention now maxSessions rows).1.lookup key =
      if key ∈ removedKeys A order mode retention now maxSessions rows then none
      else rows.lookup key := Table.lookup_foldl_erase _ _ _

theorem size_pruneSessionsWithLimit :
    (pruneSessionsWithLimit A order mode retention now maxSessions rows).1.size +
      (pruneSessionsWithLimit A order mode retention now maxSessions rows).2 = rows.size := by
  apply Table.size_foldl_erase
  · exact (nodup_keys_readRows A order mode rows).sublist (swept_sublist _ _ _ _)
  · exact fun key hkey => contains_of_mem_removedKeys hkey

end

/-- The table of the rows as they were saved. -/
def storedRows (writes : Table String (Written A order)) : Rows := writes.mapVal Written.payload

/-- The session of the row is older than the retention, or there are enough other rows with
sessions at least as recent. -/
def MayGo (writes : Table String (Written A order)) (retention now maxSessions : Nat)
    (key : String) : Prop :=
  ∀ w, writes.lookup key = some w →
    lastActivity w.session + retention < now ∨
      maxSessions ≤ writes.count fun key' w' =>
        decide (key' ≠ key ∧ lastActivity w.session ≤ lastActivity w'.session)

/-- Only rows that may go are removed, the others are kept as they are, and the number of the
removed rows is returned. -/
def PrunesOnly (writes : Table String (Written A order)) (retention now maxSessions : Nat)
    (pruned : Rows × Nat) : Prop :=
  (∀ key, pruned.1.lookup key = (storedRows writes).lookup key ∨
    pruned.1.lookup key = none ∧ MayGo writes retention now maxSessions key) ∧
  pruned.1.size + pruned.2 = (storedRows writes).size

/-- The current mode reads no other session in the row than the one saved there. -/
def ReadsOwn (mode : PersistenceMode) (w : Written A order) : Prop :=
  ∀ session, readSession A order mode w.payload = some session → session = w.session

section

variable {writes : Table String (Written A order)} {mode : PersistenceMode}
  {retention now maxSessions : Nat} {key : String} {w : Written A order}

theorem lookup_storedRows (key : String) :
    (storedRows writes).lookup key = (writes.lookup key).map Written.payload :=
  Table.lookup_mapVal Written.payload writes key

theorem exists_written {payload : List UInt8} (h : (storedRows writes).lookup key = some payload) :
    ∃ w, writes.lookup key = some w ∧ w.payload = payload :=
  Option.map_eq_some_iff.mp ((lookup_storedRows key).symm.trans h)

theorem readActivity_eq (hown : ReadsOwn mode w) {activity : Nat}
    (h : readActivity A order mode w.payload = some activity) :
    activity = lastActivity w.session := by
  obtain ⟨session, hsession, rfl⟩ := Option.map_eq_some_iff.mp h
  rw [hown session hsession]

theorem mem_removedKeys_of_unreadable (hlookup : writes.lookup key = some w)
    (h : readSession A order mode w.payload = none) :
    key ∈ removedKeys A order mode retention now maxSessions (storedRows writes) := by
  have hstored : (storedRows writes).lookup key = some w.payload := by
    rw [lookup_storedRows, hlookup, Option.map_some]
  apply mem_swept_of_unreadable
  exact mem_readRows.mpr ⟨w.payload, hstored, by rw [readActivity, h, Option.map_none]⟩

/-- The rows in front of a row in the order of the loop are at least as recent. -/
theorem length_before_le (hown : ∀ key w, writes.lookup key = some w → ReadsOwn mode w)
    {before after : List (String × Option Nat)}
    (hrows : readRows A order mode (storedRows writes) =
      before ++ (key, some (lastActivity w.session)) :: after) :
    before.length ≤ writes.count fun key' w' =>
      decide (key' ≠ key ∧ lastActivity w.session ≤ lastActivity w'.session) := by
  have hnodup := nodup_keys_readRows A order mode (storedRows writes)
  have hsorted := pairwise_readRows A order mode (storedRows writes)
  rw [hrows, List.map_append, List.map_cons, List.nodup_append] at hnodup
  rw [hrows, List.pairwise_append] at hsorted
  rw [← List.length_map (·.1)]
  refine Table.length_le_count hnodup.1 ?_
  intro key' hkey'
  obtain ⟨⟨key', activity⟩, hbefore, rfl⟩ := List.mem_map.mp hkey'
  have hmem : (key', activity) ∈ readRows A order mode (storedRows writes) := by
    rw [hrows]
    exact List.mem_append_left _ hbefore
  obtain ⟨payload, hstored, hactivity⟩ := mem_readRows.mp hmem
  obtain ⟨w', hw', rfl⟩ := exists_written hstored
  have hnewer := hsorted.2.2 _ hbefore _ List.mem_cons_self
  cases activity with
  | none => cases hnewer
  | some activity =>
    obtain rfl := readActivity_eq (hown key' w' hw') hactivity
    refine ⟨w', hw', decide_eq_true ⟨?_, of_decide_eq_true hnewer⟩⟩
    exact hnodup.2.2 key' hkey' key List.mem_cons_self

/-- A row that the loop removes although it can be read may go. -/
theorem mayGo_of_readable (hown : ∀ key w, writes.lookup key = some w → ReadsOwn mode w)
    (hlookup : writes.lookup key = some w)
    (hreadable : readSession A order mode w.payload ≠ none)
    (hkey : key ∈ removedKeys A order mode retention now maxSessions (storedRows writes)) :
    lastActivity w.session + retention < now ∨
      maxSessions ≤ writes.count fun key' w' =>
        decide (key' ≠ key ∧ lastActivity w.session ≤ lastActivity w'.session) := by
  obtain ⟨before, activity, after, hrows, hmax⟩ := split_of_mem_swept hkey
  have hmem : (key, activity) ∈ readRows A order mode (storedRows writes) := by
    rw [hrows]
    exact List.mem_append_right _ List.mem_cons_self
  obtain ⟨payload, hstored, hactivity⟩ := mem_readRows.mp hmem
  obtain ⟨w', hw', rfl⟩ := exists_written hstored
  obtain rfl : w = w' := Option.some.inj (hlookup.symm.trans hw')
  cases activity with
  | none => exact absurd (Option.map_eq_none_iff.mp hactivity) hreadable
  | some activity =>
    obtain rfl := readActivity_eq (hown key w hlookup) hactivity
    by_cases hfresh : now - retention ≤ lastActivity w.session
    · right
      have hlength := hmax (decide_eq_true hfresh)
      exact (Nat.zero_add before.length ▸ hlength).trans (length_before_le hown hrows)
    · left
      omega

theorem readSession_own (hA : A.Lawful) (hmodes : w.mode.ReadIn mode)
    (h : ¬ Imitates w.mode w.nonce) : readSession A order mode w.payload = some w.session := by
  obtain ⟨plaintext, hplaintext, hencode⟩ := w.exists_plaintext
  rw [readSession, decodePayload_of_not_imitates hA hmodes hencode h]
  exact (bincode_roundTrips order order w.session plaintext hplaintext).1

/-- With a cipher that tells keys apart, and unless the nonce imitates the marker, a row is read
as what was saved there or not at all. -/
theorem readsOwn (hA : A.Lawful) (hkeys : A.Authentic) (h : ¬ Imitates w.mode w.nonce) :
    ReadsOwn mode w := by
  intro session hread
  by_cases hmodes : w.mode.ReadIn mode
  · exact Option.some.inj (hread.symm.trans (readSession_own hA hmodes h))
  · obtain ⟨plaintext, -, hencode⟩ := w.exists_plaintext
    obtain ⟨e, he⟩ := decodePayload_error hkeys hmodes hencode h
    rw [readSession, he] at hread
    cases hread

end

def recentSession : StoredSession :=
  ⟨⟨Vector.replicate 16 0, "", [], "", 0, 1, .idle, none, none⟩, 0, [], none⟩

/-- A session of this moment, saved while sessions were encrypted. -/
def encryptedRow (order : HashOrder) : Written tagOnly order where
  session := recentSession
  mode := .encrypted zeroKey
  nonce := Vector.replicate 24 0
  payload := (savedPayload tagOnly order (.encrypted zeroKey) (Vector.replicate 24 0)
    recentSession).toOption.getD []
  saved := rfl

end Shelly.Daemon.Prune
