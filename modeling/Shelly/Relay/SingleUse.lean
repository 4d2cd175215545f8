import Shelly.Relay.Publications

namespace Shelly.Relay

/-- A publication is returned once, and consuming it deletes no later one. -/
structure SingleUse (s : RelayState) : Prop where
  returned : s.history.resolved.Nodup
  deleted : ∀ n d, (n, d) ∈ s.history.consumed → ¬ n < d

/-- What keeps the uses of a key apart. A request begins to work on a key only while no other
one is at work on it, and a publish whose row is saved is not abandoned before its entry is
in memory. -/
def oneAtATime (p : Pool RelayState RelayTask) : Move RelayTask RelayChoice RelayEvent → Bool
  | .advance i c =>
    match (p.task i).bind fun x => x.opens c p.shared with
    | some key => decide (p.Lacks fun _ y => y.window = some key)
    | none => true
  | .drop i =>
    match (p.task i).bind RelayTask.work with
    | some (.inserting _ _) => false
    | _ => true
  | .environment .restart => false
  | _ => true

theorem oneAtATime_runsOn {p : Pool RelayState RelayTask}
    {a : Move RelayTask RelayChoice RelayEvent} (h : oneAtATime p a = true) : runsOn a = true := by
  cases a with
  | environment e =>
    cases e with
    | tick => rfl
    | restart => cases h
  | spawn | advance | drop => rfl

section Invariant

variable {ext : Externals} {c : RelayChoice} {s s' : RelayState} {x x' y : RelayTask}
  {v : PairingView} {p : Pool RelayState RelayTask} {i j : Nat}

/-- What has been returned was returned once, and only itself was deleted for it. -/
structure Spent (s : RelayState) : Prop where
  own : ∀ n d, (n, d) ∈ s.history.consumed → d = n
  nodup : s.history.resolved.Nodup

/-- A request in its window finds at its key nothing but its own publication. -/
structure Sole (s : RelayState) (_ : Nat) (x : RelayTask) : Prop where
  unreturned : ∀ w, x.work = some w → w.publication ∉ s.history.resolved
  row : ∀ w key r, x.work = some w → w.window = some key → s.pairing.row key = some r →
    r.publication = w.publication
  memory : ∀ key n, x.work = some (.forgettingMemory key n) → ∀ e,
    s.inner.pairingCodes.lookup key = some e → e.publication = n

/-- Two requests work with different publications, and in different windows. -/
structure Disjoint (x y : RelayTask) : Prop where
  publications : ∀ w w', x.work = some w → y.work = some w' → w.publication ≠ w'.publication
  windows : ∀ key, x.window = some key → y.window ≠ some key

/-- The row and the entry of a key are of one publication, except while a publish has saved
the row and not inserted the entry. -/
def Aligned (p : Pool RelayState RelayTask) : Prop :=
  ∀ k e r, p.shared.inner.pairingCodes.lookup k = some e → p.shared.pairing.row k = some r →
    r.publication = e.publication ∨
      ∃ i x entry, p.task i = some x ∧ x.work = some (.inserting k entry)

theorem Disjoint.symm (h : Disjoint x y) : Disjoint y x :=
  ⟨fun w w' hw hw' heq => h.publications w' w hw' hw heq.symm,
    fun key hy hx => h.windows key hx hy⟩

/-- What a resolve deletes is at its own key. -/
theorem PairingStep.consumed_cases (h : PairingStep ext c s x x' v) {n d : Nat}
    (hd : (n, d) ∈ v.consumed) : (n, d) ∈ s.history.consumed ∨
      (∃ key e, x.work = some (.forgettingMemory key n) ∧
        s.inner.pairingCodes.lookup key = some e ∧ e.publication = d) ∨
      ∃ key r, x.work = some (.forgettingRow key n) ∧ s.pairing.row key = some r ∧
        r.publication = d := by
  cases h with
  | forgotMemory key m hx =>
    rcases List.mem_append.mp hd with hd | hd
    · rw [Option.mem_toList, Option.map_eq_some_iff] at hd
      obtain ⟨d', hd', heq⟩ := hd
      obtain ⟨e, he, hpub⟩ := Option.map_eq_some_iff.mp hd'
      obtain ⟨rfl, rfl⟩ := Prod.mk.inj heq
      exact .inr (.inl ⟨key, e, hx, he, hpub⟩)
    · exact .inl hd
  | forgotRow key m hx =>
    rcases List.mem_append.mp hd with hd | hd
    · rw [Option.mem_toList, Option.map_eq_some_iff] at hd
      obtain ⟨d', hd', heq⟩ := hd
      obtain ⟨r, hr, hpub⟩ := Option.map_eq_some_iff.mp hd'
      obtain ⟨rfl, rfl⟩ := Prod.mk.inj heq
      exact .inr (.inr ⟨key, r, hx, hr, hpub⟩)
    · exact .inl hd
  | _ => exact .inl hd

theorem spent_step (hs : relayAdvance ext c i x s = some (s', x')) (hidle : x.Idle)
    (hspent : Spent s) (hsole : Sole s i x) : Spent s' := by
  have hstep := pairing_step hidle hs
  refine ⟨fun n d hd => ?_, ?_⟩
  · rcases hstep.consumed_cases hd with hd | ⟨key, e, hx, he, rfl⟩ | ⟨key, r, hx, hr, rfl⟩
    · exact hspent.own n d hd
    · exact hsole.memory key n hx e he
    · exact hsole.row _ key r hx rfl hr
  · have hresolved : s'.history.resolved = s.history.resolved ∨
        ∃ key n, x.work = some (.forgettingRow key n) ∧ x'.work = none ∧
          s'.history.resolved = n :: s.history.resolved := hstep.resolved_cases
    rcases hresolved with heq | ⟨key, n, hx, -, heq⟩ <;> rw [heq]
    · exact hspent.nodup
    · exact List.nodup_cons.mpr ⟨hsole.unreturned _ hx, hspent.nodup⟩

/-- What a resolve finds at its key, when no request is at work on it. -/
theorem row_of_hit (haligned : Aligned p) {key : String} {e : PairingCodeEntry}
    {r : PairingCodeRow} (hlacks : p.Lacks fun _ y => y.window = some key)
    (he : p.shared.inner.pairingCodes.lookup key = some e)
    (hr : p.shared.pairing.row key = some r) : r.publication = e.publication := by
  rcases haligned key e r he hr with h | ⟨j, y, entry, hy, hw⟩
  · exact h
  · exact absurd (window_of_work hw) (of_decide_eq_false (hlacks j y hy))

theorem opens_lacks (hc : oneAtATime p (.advance i c) = true) (ht : p.task i = some x)
    {key : String} (hx : x.opens c p.shared = some key) :
    p.Lacks fun _ y => y.window = some key := by
  simp only [oneAtATime, ht, Option.bind_some, hx, decide_eq_true_eq] at hc
  exact hc

theorem sole_step (hs : relayAdvance ext c i x p.shared = some (s', x')) (ht : p.task i = some x)
    (hc : oneAtATime p (.advance i c) = true) (hn : Numbered p.shared) (hidle : x.Idle)
    (hsole : Sole p.shared i x) (haligned : Aligned p) : Sole s' i x' := by
  have hstep := pairing_step hidle hs
  refine ⟨fun w hw => ?_, fun w key r hw hwindow hr => ?_, fun key n hw e he => ?_⟩
  · have hresolved : s'.history.resolved = p.shared.history.resolved := hstep.resolved_of_work hw
    rw [hresolved]
    rcases hstep.work_origin hw with ⟨w₀, hx, hpub, -⟩ | ⟨hpub, -⟩ | ⟨_, key, e, -, he, -, rfl⟩
    · rw [hpub]
      exact hsole.unreturned w₀ hx
    · rw [hpub]
      exact fun hmem => Nat.lt_irrefl _ (hn.returned _ hmem)
    · exact fun hmem => hn.gone _ hmem key e he rfl
  · cases w with
    | deletingRows | saving => cases hwindow
    | inserting key entry =>
      obtain rfl := Option.some.inj hwindow
      obtain ⟨request, payload, -, -, hrows⟩ := hstep.to_inserting hw
      rw [row_of_saved hrows hr]
      rfl
    | forgettingMemory key n =>
      obtain rfl := Option.some.inj hwindow
      obtain ⟨e, hopens, he, rfl, hsame⟩ := hstep.to_forgettingMemory hw
      rw [hsame] at hr
      exact row_of_hit haligned (opens_lacks hc ht hopens) he hr
    | forgettingRow key n =>
      obtain rfl := Option.some.inj hwindow
      obtain ⟨hx, -, hrows⟩ := hstep.to_forgettingRow hw
      refine hsole.row (.forgettingMemory key n) key r hx rfl ?_
      rw [PairingView.row, ← hrows]
      exact hr
  · obtain ⟨e₀, -, he₀, rfl, hsame⟩ := hstep.to_forgettingMemory hw
    have hcodes : s'.inner.pairingCodes = p.shared.inner.pairingCodes :=
      congrArg PairingView.codes hsame
    rw [hcodes] at he
    exact congrArg PairingCodeEntry.publication (Option.some.inj (he.symm.trans he₀))

theorem sole_others (hs : relayAdvance ext c i x p.shared = some (s', x')) (ht : p.task i = some x)
    (hc : oneAtATime p (.advance i c) = true) (hidle : x.Idle)
    (hy : p.task j = some y) (hdisjoint : Disjoint x y) (hsole : Sole p.shared j y) :
    Sole s' j y := by
  have hstep := pairing_step hidle hs
  refine ⟨fun w hw => ?_, fun w key r hw hwindow hr => ?_, fun key n hw e he => ?_⟩
  · have hresolved : s'.history.resolved = p.shared.history.resolved ∨
        ∃ key n, x.work = some (.forgettingRow key n) ∧ x'.work = none ∧
          s'.history.resolved = n :: p.shared.history.resolved := hstep.resolved_cases
    rcases hresolved with heq | ⟨key, n, hx, -, heq⟩ <;> rw [heq]
    · exact hsole.unreturned w hw
    · rw [List.mem_cons, not_or]
      exact ⟨fun hpub => hdisjoint.publications _ _ hx hw hpub.symm, hsole.unreturned w hw⟩
  · rcases hstep.rows_origin hr with hr | ⟨request, payload, entry, hx, -, -, hstores, -⟩
    · exact hsole.row w key r hw hwindow hr
    · -- The row is saved by a publish, which begins only when no window is open.
      have hopens : x.opens c p.shared = some key := by
        rw [hx, RelayTask.opens, if_pos hstores]
      exact absurd ((window_of_work hw).trans hwindow)
        (of_decide_eq_false (opens_lacks hc ht hopens j y hy))
  · rcases hstep.codes_origin he with he | ⟨hx, -⟩
    · exact hsole.memory key n hw e he
    · exact absurd (window_of_work hw) (hdisjoint.windows key (window_of_work hx))

/-- What the requests keep between them. -/
structure Orderly (p : Pool RelayState RelayTask) : Prop where
  numbering : Numbering p
  disjoint : p.Pairwise Disjoint
  aligned : Aligned p

theorem disjoint_step {q : Pool RelayState RelayTask}
    {a : Move RelayTask RelayChoice RelayEvent} (hp : Orderly p) (hc : oneAtATime p a = true)
    (hs : (relayTasking ext).machine.step a p = some q) : q.Pairwise Disjoint := by
  obtain ⟨⟨hsafe, -⟩, hdisjoint, -⟩ := hp
  refine Tasking.pairwise_step (fun _ _ => Disjoint.symm) hdisjoint hs ?_ ?_
  · intro x y hx
    have hnone := arrives_work hx
    refine ⟨(fun w w' hw => by cases hnone.symm.trans hw), fun key hw => ?_⟩
    obtain ⟨w, hw, -⟩ := exists_work_of_window hw
    cases hnone.symm.trans hw
  · intro i c x s' x' ha ht hr j y hji hy
    subst ha
    have hstep := pairing_step (i := i) (hsafe.2 i x ht).idle hr
    have hxy := hdisjoint i j x y hji.symm ht hy
    refine ⟨fun w w' hw hw' => ?_, fun key hw hw' => ?_⟩
    · rcases hstep.work_origin hw with ⟨w₀, hx, hpub, -⟩ | ⟨hpub, -⟩ |
        ⟨code, key, e, hx, he, hlive, rfl⟩
      · rw [hpub]
        exact hxy.publications w₀ w' hx hw'
      · rw [hpub]
        exact (Nat.ne_of_lt ((hsafe.2 j y hy).bound w' hw')).symm
      · -- The entry is in memory, so no publish has it pending, and no resolve has found it.
        have hopens : x.opens c p.shared = some key := by
          rw [hx, RelayTask.opens, he, if_pos (by exact decide_eq_true hlive)]
        have hlacks := of_decide_eq_false (opens_lacks hc ht hopens j y hy)
        cases w' with
        | deletingRows | saving | inserting => exact (hsafe.2 j y hy).absent _ hw' rfl key e he
        | forgettingMemory key' n =>
          intro hpub
          have hkey : key = key' := (hsafe.2 j y hy).found key' n hw' key e he hpub
          exact hlacks (hkey ▸ window_of_work hw')
        | forgettingRow key' n => exact (hsafe.2 j y hy).forgotten key' n hw' key e he
    · rcases hstep.window_origin hw with hx | hopens
      · exact hxy.windows key hx hw'
      · exact absurd hw' (of_decide_eq_false (opens_lacks hc ht hopens j y hy))

theorem aligned_step {q : Pool RelayState RelayTask}
    {a : Move RelayTask RelayChoice RelayEvent} (hsole : Tasking.Safe Spent Sole p)
    (hp : Orderly p) (hc : oneAtATime p a = true)
    (hs : (relayTasking ext).machine.step a p = some q) : Aligned q := by
  obtain ⟨⟨hsafe, -⟩, -, haligned⟩ := hp
  intro k e r he hr
  cases Tasking.stepped_of_step hs with
  | spawn i x hx hi =>
    rcases haligned k e r he hr with h | ⟨j, y, entry, hy, hw⟩
    · exact .inl h
    · refine .inr ⟨j, y, entry, ?_, hw⟩
      rw [Pool.setTask_task, if_neg (by rintro rfl; cases hi.symm.trans hy)]
      exact hy
  | drop i x ht hx =>
    rcases haligned k e r he hr with h | ⟨j, y, entry, hy, hw⟩
    · exact .inl h
    · refine .inr ⟨j, y, entry, ?_, hw⟩
      rw [Pool.dropTask_task, if_neg ?_]
      · exact hy
      · rintro rfl
        simp only [oneAtATime, hy, Option.bind_some, hw] at hc
        cases hc
  | keep event s' hr' =>
    cases event with
    | tick ms =>
      obtain ⟨-, heq⟩ := Option.ite_none_right_eq_some.mp hr'
      cases heq
      exact haligned k e r he hr
    | restart => cases hc
  | clear event s' hr' =>
    cases event with
    | tick ms =>
      obtain ⟨-, heq⟩ := Option.ite_none_right_eq_some.mp hr'
      cases heq
    | restart => cases hc
  | advance i c x x' s' ht hr' =>
    have hstep := pairing_step (i := i) (hsafe.2 i x ht).idle hr'
    by_cases hx : ∃ entry, x.work = some (.inserting k entry)
    · obtain ⟨entry, hx⟩ := hx
      obtain ⟨-, hv⟩ := hstep.of_inserting hx
      have hcodes : s'.inner.pairingCodes = p.shared.inner.pairingCodes.insert k entry :=
        congrArg PairingView.codes hv
      have hrows : s'.pairing.rows = p.shared.pairing.rows := by rw [hv]
      have he : s'.inner.pairingCodes.lookup k = some e := he
      rw [hcodes, Table.lookup_insert_self] at he
      obtain rfl := Option.some.inj he
      refine .inl ((hsole.2 i x ht).row _ k r hx rfl ?_)
      rw [PairingView.row, ← hrows]
      exact hr
    · rcases hstep.rows_origin hr with hr | ⟨_, _, entry, -, -, hx', -⟩
      · rcases hstep.codes_origin he with he | ⟨hx', -⟩
        · rcases haligned k e r he hr with h | ⟨j, y, entry, hy, hw⟩
          · exact .inl h
          · refine .inr ⟨j, y, entry, ?_, hw⟩
            rw [Pool.setTask_task, if_neg ?_]
            · exact hy
            · rintro rfl
              cases ht.symm.trans hy
              exact hx ⟨entry, hw⟩
        · exact absurd ⟨e, hx'⟩ hx
      · refine .inr ⟨i, x', entry, ?_, hx'⟩
        rw [Pool.setTask_task, if_pos rfl]

theorem sole_noninterference (ext : Externals) : (relayTasking ext).Noninterference
    (fun p a => oneAtATime p a = true ∧ Orderly p) Spent Sole where
  init s hs := by
    refine ⟨fun n d hd => ?_, ?_⟩
    · rw [hs.history] at hd
      cases hd
    · rw [hs.history]
      exact List.nodup_nil
  fresh p i x _ _ hx := by
    have hnone {w : PairingWork} (hw : x.work = some w) : False := by
      cases (arrives_work hx).symm.trans hw
    exact ⟨fun w hw => (hnone hw).elim, fun w key r hw => (hnone hw).elim,
      fun key n hw => (hnone hw).elim⟩
  own p i c x s' x' hc hspent ht hsole hs := by
    obtain ⟨hc, ⟨hsafe, -⟩, -, haligned⟩ := hc
    exact ⟨spent_step hs (hsafe.2 i x ht).idle hspent hsole,
      sole_step hs ht hc hsafe.1 (hsafe.2 i x ht).idle hsole haligned⟩
  others p i c x s' x' hc _ ht _ hs j y hji hy hsole := by
    obtain ⟨hc, ⟨hsafe, -⟩, hdisjoint, -⟩ := hc
    exact sole_others hs ht hc (hsafe.2 i x ht).idle hy (hdisjoint i j x y hji.symm ht hy) hsole
  environment p e s' keep hc hspent hs := by
    cases e with
    | tick ms =>
      obtain ⟨-, hr⟩ := Option.ite_none_right_eq_some.mp hs
      cases hr
      exact ⟨⟨hspent.own, hspent.nodup⟩, fun _ j y _ hsole =>
        ⟨hsole.unreturned, hsole.row, hsole.memory⟩⟩
    | restart => cases hc.1

theorem orderly_init (h : (relayTasking ext).machine.init p) : Orderly p := by
  refine ⟨numbering_init h, Tasking.pairwise_init h, fun k e r he => ?_⟩
  rw [h.1.inner] at he
  cases (Table.lookup_empty k).symm.trans he

end Invariant

section Traces

private def offeringDaemon : String := "daemon-0123456789"

private def sharedCode : String := "ABCDE"

private def offer (n : Nat) : PublishPairingRequest :=
  .legacy ⟨offeringDaemon, sharedCode, "ticket-number-00" ++ toString n, 600000,
    "nonce-000000000-" ++ toString n, 1000⟩

private def offerScript : Externals :=
  .playing ⟨[⟨offeringDaemon, keyText 'A', none, none, none⟩], [], [], [], [offer 0, offer 1]⟩

private def registerPublisher : List (Move RelayTask RelayChoice RelayEvent) :=
  [arriving offerScript 10 "/v1/pair" [0] none] ++ Move.repeated 5 10 RelayChoice.fine

private def publishOffer (n : Nat) : List (Move RelayTask RelayChoice RelayEvent) :=
  [arriving offerScript n "/v1/pair/publish" [UInt8.ofNat n] (signedBy 'A')] ++
    Move.repeated 11 n RelayChoice.fine

private def lookUp (i : Nat) : List (Move RelayTask RelayChoice RelayEvent) :=
  [.spawn i (.handle (.resolve sharedCode .start))] ++ Move.repeated 2 i RelayChoice.fine

end Traces

end Shelly.Relay
