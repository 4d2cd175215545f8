import Mathlib.Data.List.Sort
import Shelly.Daemon.Redraw

namespace Shelly.Daemon

/-- What can be seen of a cell: its text and its attributes. -/
abbrev Visible := List Char × CellAttributes

/-- Whether a line goes on in the next one cannot be seen. -/
def Cell.visible (cell : Cell) : Option Visible :=
  if cell.spacer || Cell.isEmpty { cell with wrapline := false } then none
  else some (pushCellString cell, cell.attributes)

/-- The column that a tab leads to on a fresh terminal. After a tab in the last column there is no
room for another character that is to stay there. -/
def tabTarget (cols column : Nat) : Nat :=
  if column + 1 < cols then min (8 * (column / 8 + 1)) (cols - 1) else cols

/-- The column after a cell that was written at this one. -/
def Cell.advance (width : Char → Nat) (cols column : Nat) (cell : Cell) : Nat :=
  if cell.spacer then column
  else if cell.c = '\t' then tabTarget cols column
  else column + width cell.c

/-- A cell as it is drawn: a tab does not take the attributes of the pen. -/
def Cell.redrawn (cell : Cell) : Cell :=
  if cell.c = '\t' ∧ cell.spacer = false then
    { Cell.default with c := '\t', zerowidth := cell.zerowidth }
  else cell

/-- What can be seen of cells in their own columns. -/
def visibleCells : Nat → List Cell → List (Nat × Visible)
  | _, [] => []
  | column, cell :: cells =>
    (cell.visible.map (column, ·)).toList ++ visibleCells (column + 1) cells

section Layout

variable (width : Char → Nat) (cols : Nat)

/-- What can be seen of cells in the columns that they are drawn in, one after another. -/
def redrawnCells : Nat → List Cell → List (Nat × Visible)
  | _, [] => []
  | column, cell :: cells =>
    (cell.redrawn.visible.map (column, ·)).toList ++
      redrawnCells (cell.advance width cols column) cells

/-- The cells stay in the row when they are drawn one after another, and the characters of no width
are drawn to their own cell. -/
def FitsRow : Nat → List Cell → Prop
  | _, [] => True
  | column, cell :: cells =>
    (cell.spacer = false →
      if cell.c = '\t' then
        column < cols ∧ (cell.zerowidth = [] ∨ column + 1 < cols ∧ tabTarget cols column = column + 1)
      else column + width cell.c ≤ cols) ∧
    FitsRow (cell.advance width cols column) cells

/-- Drawn one after another from `column` on, the cells that can be seen get to their own columns,
of which `own` is the first, and no attributes are lost. -/
def Aligned : Nat → Nat → List Cell → Prop
  | _, _, [] => True
  | column, own, cell :: cells =>
    (cell.visible.isSome → column = own ∧ (cell.c = '\t' → cell.attributes = .default)) ∧
    Aligned (cell.advance width cols column) (own + 1) cells

instance decidableFitsRow : ∀ column cells, Decidable (FitsRow width cols column cells)
  | _, [] => inferInstanceAs (Decidable True)
  | column, cell :: cells =>
    have := decidableFitsRow (cell.advance width cols column) cells
    inferInstanceAs (Decidable (_ ∧ _))

instance decidableAligned : ∀ column own cells, Decidable (Aligned width cols column own cells)
  | _, _, [] => inferInstanceAs (Decidable True)
  | column, own, cell :: cells =>
    have := decidableAligned (cell.advance width cols column) (own + 1) cells
    inferInstanceAs (Decidable (_ ∧ _))

end Layout

section Visible

variable {width : Char → Nat} {cols column own : Nat} {cell : Cell} {cells : List Cell}

theorem visible_default : Cell.default.visible = none := rfl

theorem visible_spacer (h : cell.spacer = true) : cell.visible = none := by
  simp [Cell.visible, h]

theorem redrawn_spacer (h : cell.spacer = true) : cell.redrawn = cell := by
  simp [Cell.redrawn, h]

theorem redrawn_char (h : cell.c ≠ '\t') : cell.redrawn = cell := by
  simp [Cell.redrawn, h]

theorem visible_redrawn_tab (h : cell.spacer = false) (hc : cell.c = '\t') :
    cell.redrawn.visible =
      if cell.zerowidth = [] then none else some ('\t' :: cell.zerowidth, .default) := by
  have hredrawn : cell.redrawn = { Cell.default with c := '\t', zerowidth := cell.zerowidth } :=
    if_pos ⟨hc, h⟩
  rw [hredrawn]
  cases cell.zerowidth with
  | nil => rfl
  | cons c cs => rfl

/-- A tab without attributes and combining characters cannot be seen. -/
theorem visible_tab (h : cell.spacer = false) (hc : cell.c = '\t')
    (hattrs : cell.attributes = .default) : cell.visible = cell.redrawn.visible := by
  obtain ⟨c, zerowidth, attributes, wideChar, wideCharSpacer, leading, wrapline⟩ := cell
  simp only at hc hattrs
  subst hc hattrs
  rw [visible_redrawn_tab h rfl]
  simp only [Cell.spacer, Bool.or_eq_false_iff] at h
  obtain ⟨rfl, rfl⟩ := h
  cases zerowidth with
  | nil => rfl
  | cons c cs => rfl

theorem visible_isSome_of_zerowidth (h : cell.spacer = false) (hzero : cell.zerowidth ≠ []) :
    cell.visible = some (pushCellString cell, cell.attributes) := by
  obtain ⟨c, cs, hcs⟩ := List.exists_cons_of_ne_nil hzero
  simp [Cell.visible, Cell.isEmpty, h, hcs]

theorem visible_redrawn_eq_iff :
    cell.redrawn.visible = cell.visible ↔
      (cell.visible.isSome → cell.c = '\t' → cell.attributes = .default) := by
  by_cases hs : cell.spacer = true
  · simp [redrawn_spacer hs, visible_spacer hs]
  replace hs : cell.spacer = false := by simpa using hs
  by_cases hc : cell.c = '\t'
  · constructor
    · intro heq hsome _
      rw [← heq, visible_redrawn_tab hs hc] at hsome
      split at hsome
      · cases hsome
      · next hzero =>
        rw [visible_redrawn_tab hs hc, if_neg hzero, visible_isSome_of_zerowidth hs hzero] at heq
        exact (congrArg Prod.snd (Option.some.inj heq)).symm
    · intro h
      cases hv : cell.visible with
      | some x => exact ((visible_tab hs hc (h (by simp [hv]) hc)).symm).trans hv
      | none =>
        have hzero : cell.zerowidth = [] := by
          by_contra hzero
          rw [visible_isSome_of_zerowidth hs hzero] at hv
          cases hv
        rw [visible_redrawn_tab hs hc, if_pos hzero]
  · simp [redrawn_char hc, hc]

/-- Nothing appears that could not be seen before. -/
theorem visible_of_redrawn (h : cell.redrawn.visible.isSome) : cell.visible.isSome := by
  by_cases hs : cell.spacer = true
  · simpa [redrawn_spacer hs] using h
  replace hs : cell.spacer = false := by simpa using hs
  by_cases hc : cell.c = '\t'
  · rw [visible_redrawn_tab hs hc] at h
    split at h
    · cases h
    · next hzero => simp [visible_isSome_of_zerowidth hs hzero]
  · simpa [redrawn_char hc] using h

theorem length_redrawnCells_le :
    (redrawnCells width cols column cells).length ≤ (visibleCells own cells).length := by
  induction cells generalizing column own with
  | nil => simp [redrawnCells, visibleCells]
  | cons cell cells ih =>
    have hcell : (cell.redrawn.visible.map (column, ·)).toList.length ≤
        (cell.visible.map (own, ·)).toList.length := by
      cases hr : cell.redrawn.visible with
      | none => simp
      | some x =>
        obtain ⟨y, hy⟩ := Option.isSome_iff_exists.mp (@visible_of_redrawn cell (by simp [hr]))
        simp [hy]
    simp only [redrawnCells, visibleCells, List.length_append]
    exact Nat.add_le_add hcell ih

/-- Drawn one after another the cells look the same just if they are aligned. -/
theorem redrawnCells_eq_iff :
    redrawnCells width cols column cells = visibleCells own cells ↔
      Aligned width cols column own cells := by
  induction cells generalizing column own with
  | nil => simp [redrawnCells, visibleCells, Aligned]
  | cons cell cells ih =>
    rw [Aligned, redrawnCells, visibleCells, ← ih]
    cases hv : cell.visible with
    | none =>
      have hr : cell.redrawn.visible = none := by
        by_contra hr
        have hsome := @visible_of_redrawn cell (by simpa [Option.isSome_iff_ne_none] using hr)
        simp [hv] at hsome
      simp [hr]
    | some x =>
      have hiff := @visible_redrawn_eq_iff cell
      rw [hv] at hiff
      cases hr : cell.redrawn.visible with
      | none =>
        have hle := @length_redrawnCells_le width cols (cell.advance width cols column) (own + 1)
          cells
        constructor
        · intro heq
          have hlen := congrArg List.length heq
          simp at hlen
          omega
        · rintro ⟨hcell, -⟩
          have heq := hiff.mpr fun _ htab => (hcell rfl).2 htab
          rw [hr] at heq
          cases heq
      | some y =>
        rw [hr] at hiff
        simp only [Option.map_some, Option.toList_some, List.singleton_append, List.cons.injEq,
          Prod.mk.injEq]
        constructor
        · rintro ⟨⟨hcolumn, hy⟩, hrest⟩
          exact ⟨fun _ => ⟨hcolumn, hiff.mp (congrArg some hy) rfl⟩, hrest⟩
        · rintro ⟨hcell, hrest⟩
          have heq := hiff.mpr fun _ htab => (hcell rfl).2 htab
          exact ⟨⟨(hcell rfl).1, Option.some.inj heq⟩, hrest⟩

theorem lt_tabTarget (h : column < cols) :
    column < tabTarget cols column ∧ tabTarget cols column ≤ cols := by
  unfold tabTarget
  split <;> omega

theorem advance_spacer (h : cell.spacer = true) : cell.advance width cols column = column := by
  simp [Cell.advance, h]

theorem advance_tab (h : cell.spacer = false) (hc : cell.c = '\t') :
    cell.advance width cols column = tabTarget cols column := by
  simp [Cell.advance, h, hc]

theorem advance_char (h : cell.spacer = false) (hc : cell.c ≠ '\t') :
    cell.advance width cols column = column + width cell.c := by
  simp [Cell.advance, h, hc]

/-- A cell that is drawn takes room. -/
theorem lt_advance (hdrawn : cell.Drawn width cols) (hfits : FitsRow width cols column (cell :: cells))
    (h : cell.spacer = false) :
    column < cell.advance width cols column ∧ cell.advance width cols column ≤ cols := by
  have hcell := hfits.1 h
  split at hcell
  · next hc =>
    rw [advance_tab h hc]
    exact lt_tabTarget hcell.1
  · next hc =>
    obtain ⟨-, hpos, -⟩ := hdrawn.c.resolve_left hc
    rw [advance_char h hc]
    omega

theorem mem_visible_toList {x : Visible} {q : Nat} {v : Option Visible} :
    (q, x) ∈ (v.map (column, ·)).toList ↔ q = column ∧ v = some x := by
  cases v with
  | none => simp
  | some y => simp [Prod.ext_iff, eq_comm, and_comm]

theorem spacer_of_visible (h : cell.visible.isSome) : cell.spacer = false := by
  by_contra hs
  rw [visible_spacer (by simpa using hs)] at h
  cases h

theorem bounds_redrawnCells (hdrawn : ∀ cell ∈ cells, cell.Drawn width cols)
    (hfits : FitsRow width cols column cells) {q : Nat} {x : Visible}
    (h : (q, x) ∈ redrawnCells width cols column cells) : column ≤ q ∧ q < cols := by
  induction cells generalizing column with
  | nil => cases h
  | cons cell cells ih =>
    have hrest := fun h => ih (fun c hc => hdrawn c (.tail _ hc)) hfits.2 h
    rw [redrawnCells, List.mem_append, mem_visible_toList] at h
    by_cases hs : cell.spacer = true
    · rw [advance_spacer hs] at hrest h
      rcases h with ⟨-, hv⟩ | h
      · rw [redrawn_spacer hs, visible_spacer hs] at hv
        cases hv
      · exact hrest h
    · have hlt := lt_advance (hdrawn cell (.head _)) hfits (by simpa using hs)
      rcases h with ⟨rfl, -⟩ | h
      · omega
      · have := hrest h
        omega

theorem pairwise_redrawnCells (hdrawn : ∀ cell ∈ cells, cell.Drawn width cols)
    (hfits : FitsRow width cols column cells) :
    (redrawnCells width cols column cells).Pairwise fun a b => a.1 < b.1 := by
  induction cells generalizing column with
  | nil => exact .nil
  | cons cell cells ih =>
    have hdrawn' : ∀ c ∈ cells, c.Drawn width cols := fun c hc => hdrawn c (.tail _ hc)
    rw [redrawnCells, List.pairwise_append]
    refine ⟨by cases cell.redrawn.visible <;> simp, ih hdrawn' hfits.2, ?_⟩
    rintro ⟨q, x⟩ hq ⟨q', x'⟩ hq'
    obtain ⟨rfl, hv⟩ := mem_visible_toList.mp hq
    have hs : cell.spacer = false := spacer_of_visible (visible_of_redrawn (by simp [hv]))
    have hlt := lt_advance (hdrawn cell (.head _)) hfits hs
    have hle := bounds_redrawnCells hdrawn' hfits.2 hq'
    omega

theorem mem_visibleCells {q : Nat} {x : Visible} :
    (q, x) ∈ visibleCells own cells ↔
      own ≤ q ∧ (cells[q - own]?).bind Cell.visible = some x := by
  induction cells generalizing own with
  | nil => simp [visibleCells]
  | cons cell cells ih =>
    rw [visibleCells, List.mem_append, mem_visible_toList, ih]
    by_cases hq : q = own
    · subst hq
      simp
    · by_cases hle : own + 1 ≤ q
      · have hsub : q - own = q - (own + 1) + 1 := by omega
        simp [hq, hle, hsub, show own ≤ q by omega]
      · simp [hq, hle, show ¬own ≤ q by omega]

theorem pairwise_visibleCells : (visibleCells own cells).Pairwise fun a b => a.1 < b.1 := by
  induction cells generalizing own with
  | nil => exact .nil
  | cons cell cells ih =>
    rw [visibleCells, List.pairwise_append]
    refine ⟨by cases cell.visible <;> simp, ih, ?_⟩
    rintro ⟨q, x⟩ hq ⟨q', x'⟩ hq'
    have hq := (mem_visible_toList.mp hq).1
    have hq' := (mem_visibleCells.mp hq').1
    simp only
    omega

/-- A row that fits looks the same when it is drawn just if its cells are aligned. -/
theorem mem_redrawnCells_iff_aligned (hdrawn : ∀ cell ∈ cells, cell.Drawn width cols)
    (hfits : FitsRow width cols column cells) :
    (∀ q x, (q, x) ∈ redrawnCells width cols column cells ↔ (q, x) ∈ visibleCells own cells) ↔
      Aligned width cols column own cells := by
  rw [← redrawnCells_eq_iff]
  constructor
  · intro h
    have hirrefl : Std.Irrefl fun a b : Nat × Visible => a.1 < b.1 := ⟨fun _ => Nat.lt_irrefl _⟩
    have hantisymm : Std.Antisymm fun a b : Nat × Visible => a.1 < b.1 :=
      ⟨fun _ _ hab hba => absurd hba (Nat.lt_asymm hab)⟩
    exact (pairwise_redrawnCells hdrawn hfits).eq_of_mem_iff pairwise_visibleCells
      fun a => h a.1 a.2
  · intro h q x
    rw [h]

end Visible

end Shelly.Daemon
