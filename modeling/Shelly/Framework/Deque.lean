import Mathlib.Data.List.Basic

namespace Shelly

/-- Overwrites the cells from a position on. -/
def splice {α : Type*} (cells : List α) (pos : Nat) (source : List α) : List α :=
  cells.take pos ++ source ++ cells.drop (pos + source.length)

section Splice

variable {α : Type*} {cells source : List α} {pos : Nat}

theorem length_splice (h : pos + source.length ≤ cells.length) :
    (splice cells pos source).length = cells.length := by
  simp only [splice, List.length_append, List.length_take, List.length_drop]
  omega

theorem getElem?_splice (h : pos + source.length ≤ cells.length) (i : Nat) :
    (splice cells pos source)[i]? =
      if pos ≤ i ∧ i < pos + source.length then source[i - pos]? else cells[i]? := by
  have htake : (cells.take pos).length = pos := by rw [List.length_take]; omega
  unfold splice
  by_cases hlow : i < pos
  · rw [if_neg (by omega), List.append_assoc, List.getElem?_append_left (by omega),
      List.getElem?_take_of_lt hlow]
  · by_cases hhigh : i < pos + source.length
    · rw [if_pos ⟨by omega, hhigh⟩, List.append_assoc, List.getElem?_append_right (by omega),
        htake, List.getElem?_append_left (by omega)]
    · rw [if_neg (by omega), List.getElem?_append_right (by rw [List.length_append]; omega),
        List.getElem?_drop, List.length_append, htake]
      congr 1
      omega

end Splice

/-- The memory that a growing store is given: at least as many cells as it asks for, with
whatever they held before. -/
structure Allocator (α : Type*) where
  fresh : Nat → List α
  enough : ∀ n, n ≤ (fresh n).length

/-- A queue in a circular store: the `len` cells from `head` on, continued at the first
cell once the last one is passed. -/
structure Deque (α : Type*) where
  cells : List α
  head : Nat
  len : Nat
  head_le : head ≤ cells.length
  len_le : len ≤ cells.length

namespace Deque

variable {α : Type*}

def new : Deque α := ⟨[], 0, 0, Nat.le_refl 0, Nat.le_refl 0⟩

def wrapIndex (logical capacity : Nat) : Nat :=
  if capacity ≤ logical then logical - capacity else logical

theorem wrapIndex_of_lt {logical capacity : Nat} (h : logical < capacity) :
    wrapIndex logical capacity = logical :=
  if_neg (Nat.not_le.mpr h)

theorem wrapIndex_of_le {logical capacity : Nat} (h : capacity ≤ logical) :
    wrapIndex logical capacity = logical - capacity :=
  if_pos h

/-- The place in the store of an index into the queue. -/
def toPhysical (d : Deque α) (i : Nat) : Nat := wrapIndex (d.head + i) d.cells.length

/-- The queue as the part up to the end of the store and the part that went around. -/
def asSlices (d : Deque α) : List α × List α :=
  let headLen := d.cells.length - d.head
  if d.len ≤ headLen then ((d.cells.drop d.head).take d.len, [])
  else (d.cells.drop d.head, d.cells.take (d.len - headLen))

def contents (d : Deque α) : List α := d.asSlices.1 ++ d.asSlices.2

theorem getElem?_contents (d : Deque α) (i : Nat) :
    d.contents[i]? = if i < d.len then d.cells[d.toPhysical i]? else none := by
  have hhead := d.head_le
  have hlen := d.len_le
  unfold contents asSlices toPhysical wrapIndex
  by_cases hone : d.len ≤ d.cells.length - d.head
  · simp only [if_pos hone, List.append_nil, List.getElem?_take, List.getElem?_drop]
    by_cases hi : i < d.len
    · rw [if_pos hi, if_pos hi, if_neg (by omega)]
    · rw [if_neg hi, if_neg hi]
  · simp only [if_neg hone]
    by_cases hfirst : i < d.cells.length - d.head
    · rw [List.getElem?_append_left (by rw [List.length_drop]; exact hfirst), List.getElem?_drop,
        if_pos (by omega), if_neg (by omega)]
    · rw [List.getElem?_append_right (by rw [List.length_drop]; omega), List.length_drop,
        List.getElem?_take]
      by_cases hi : i < d.len
      · rw [if_pos (by omega), if_pos hi, if_pos (by omega)]
        congr 1
        omega
      · rw [if_neg (by omega), if_neg hi]

@[simp] theorem length_contents (d : Deque α) : d.contents.length = d.len := by
  have hhead := d.head_le
  have hlen := d.len_le
  unfold contents asSlices
  by_cases hone : d.len ≤ d.cells.length - d.head
  · simp only [if_pos hone, List.length_append, List.length_take, List.length_drop,
      List.length_nil]
    omega
  · simp only [if_neg hone, List.length_append, List.length_take, List.length_drop]
    omega

@[simp] theorem contents_new : (new : Deque α).contents = [] := rfl

/-- Two queues of one length are equal when they agree cell by cell. -/
theorem contents_eq {d : Deque α} {l : List α} (hlen : d.len = l.length)
    (h : ∀ i < d.len, d.cells[d.toPhysical i]? = l[i]?) : d.contents = l := by
  apply List.ext_getElem?
  intro i
  rw [getElem?_contents]
  split
  · rename_i hi
    exact h i hi
  · rename_i hi
    exact (List.getElem?_eq_none (by omega)).symm

/-- Drops cells at the front. -/
def drain (d : Deque α) (n : Nat) : Deque α where
  cells := d.cells
  head := if d.len ≤ n then 0 else d.toPhysical n
  len := d.len - n
  head_le := by
    have hhead := d.head_le
    have hlen := d.len_le
    unfold toPhysical wrapIndex
    split
    · exact Nat.zero_le _
    · split <;> omega
  len_le := Nat.le_trans (Nat.sub_le _ _) d.len_le

theorem contents_drain (d : Deque α) (n : Nat) : (d.drain n).contents = d.contents.drop n := by
  apply contents_eq
  · rw [List.length_drop, length_contents]
    rfl
  · intro i hi
    have hn : n + i < d.len := by
      change i < d.len - n at hi
      omega
    have hhead := d.head_le
    have hlen := d.len_le
    rw [List.getElem?_drop, getElem?_contents, if_pos hn]
    change d.cells[wrapIndex ((if d.len ≤ n then 0 else d.toPhysical n) + i) d.cells.length]? = _
    rw [if_neg (by omega)]
    congr 1
    unfold toPhysical wrapIndex
    split <;> split <;> split <;> omega

/-- Makes the store larger. What had gone around is moved behind the old end, or what had
not is moved to the new end, whichever is shorter and fits. -/
def grow (d : Deque α) (fresh : List α) : Deque α :=
  let old := d.cells.length
  let cells := d.cells ++ fresh
  if hflat : d.head + d.len ≤ old then
    { cells
      head := d.head
      len := d.len
      head_le := by rw [List.length_append]; omega
      len_le := by rw [List.length_append]; omega }
  else
    let headLen := old - d.head
    let tailLen := d.len - headLen
    if hshort : tailLen < headLen ∧ tailLen ≤ fresh.length then
      { cells := splice cells old (d.cells.take tailLen)
        head := d.head
        len := d.len
        head_le := by
          have := d.head_le
          have := d.len_le
          have := hshort.2
          rw [length_splice] <;> simp only [cells, List.length_append, List.length_take] <;> omega
        len_le := by
          have := d.len_le
          have := hshort.2
          rw [length_splice] <;> simp only [cells, List.length_append, List.length_take] <;> omega }
    else
      { cells := splice cells (cells.length - headLen) (d.cells.drop d.head)
        head := cells.length - headLen
        len := d.len
        head_le := by
          have := d.head_le
          rw [length_splice] <;> simp only [cells, List.length_append, List.length_drop] <;> omega
        len_le := by
          have := d.len_le
          rw [length_splice] <;> simp only [cells, List.length_append, List.length_drop] <;> omega }

theorem contents_grow (d : Deque α) (fresh : List α) : (d.grow fresh).contents = d.contents := by
  have hhead := d.head_le
  have hlen := d.len_le
  have hdata (i : Nat) : d.contents[i]? = if i < d.len then d.cells[d.toPhysical i]? else none :=
    getElem?_contents d i
  have hold {i : Nat} (hi : i < d.cells.length) : (d.cells ++ fresh)[i]? = d.cells[i]? :=
    List.getElem?_append_left hi
  unfold grow
  by_cases hflat : d.head + d.len ≤ d.cells.length
  · simp only [dif_pos hflat]
    apply contents_eq
    · exact (length_contents d).symm
    intro i hi
    change i < d.len at hi
    rw [hdata, if_pos hi]
    simp only [toPhysical, List.length_append]
    rw [wrapIndex_of_lt (by omega), wrapIndex_of_lt (by omega), hold (by omega)]
  · simp only [dif_neg hflat]
    by_cases hshort : d.len - (d.cells.length - d.head) < d.cells.length - d.head ∧
        d.len - (d.cells.length - d.head) ≤ fresh.length
    · -- The part that went around now lies behind the old end.
      simp only [dif_pos hshort]
      have hfits : d.cells.length + (d.cells.take (d.len - (d.cells.length - d.head))).length ≤
          (d.cells ++ fresh).length := by
        rw [List.length_append, List.length_take]
        omega
      apply contents_eq
      · exact (length_contents d).symm
      intro i hi
      change i < d.len at hi
      rw [hdata, if_pos hi]
      simp only [toPhysical]
      rw [length_splice hfits, List.length_append, wrapIndex_of_lt (by omega),
        getElem?_splice hfits, List.length_take]
      by_cases hfirst : d.head + i < d.cells.length
      · rw [wrapIndex_of_lt hfirst, if_neg (by omega), hold hfirst]
      · rw [wrapIndex_of_le (by omega), if_pos (by omega), List.getElem?_take_of_lt (by omega)]
    · -- The part before the end now lies at the new end.
      simp only [dif_neg hshort]
      have hfits : (d.cells ++ fresh).length - (d.cells.length - d.head) +
          (d.cells.drop d.head).length ≤ (d.cells ++ fresh).length := by
        rw [List.length_append, List.length_drop]
        omega
      apply contents_eq
      · exact (length_contents d).symm
      intro i hi
      change i < d.len at hi
      rw [hdata, if_pos hi]
      simp only [toPhysical]
      rw [length_splice hfits, List.length_append]
      rw [List.length_append, List.length_drop] at hfits
      by_cases hfirst : d.head + i < d.cells.length
      · rw [wrapIndex_of_lt (by omega), wrapIndex_of_lt hfirst,
          getElem?_splice (by rw [List.length_append, List.length_drop]; exact hfits),
          List.length_drop, if_pos (by omega), List.getElem?_drop]
        congr 1
        omega
      · rw [wrapIndex_of_le (by omega), wrapIndex_of_le (by omega),
          getElem?_splice (by rw [List.length_append, List.length_drop]; exact hfits),
          List.length_drop, if_neg (by omega), hold (by omega)]
        congr 1
        omega

/-- Asks for room for some more cells. -/
def reserve (d : Deque α) (allocator : Allocator α) (additional : Nat) : Deque α :=
  if d.cells.length < d.len + additional then
    d.grow (allocator.fresh (d.len + additional - d.cells.length))
  else d

@[simp] theorem len_grow (d : Deque α) (fresh : List α) : (d.grow fresh).len = d.len := by
  unfold grow
  by_cases hflat : d.head + d.len ≤ d.cells.length
  · simp only [dif_pos hflat]
  · simp only [dif_neg hflat]
    split <;> rfl

theorem length_cells_grow (d : Deque α) (fresh : List α) :
    (d.grow fresh).cells.length = d.cells.length + fresh.length := by
  have hhead := d.head_le
  have hlen := d.len_le
  unfold grow
  by_cases hflat : d.head + d.len ≤ d.cells.length
  · simp only [dif_pos hflat, List.length_append]
  · simp only [dif_neg hflat]
    by_cases hshort : d.len - (d.cells.length - d.head) < d.cells.length - d.head ∧
        d.len - (d.cells.length - d.head) ≤ fresh.length
    · simp only [dif_pos hshort]
      rw [length_splice] <;> rw [List.length_append]
      rw [List.length_take]
      omega
    · simp only [dif_neg hshort]
      rw [length_splice] <;> rw [List.length_append]
      rw [List.length_drop]
      omega

theorem reserve_spec (d : Deque α) (allocator : Allocator α) (additional : Nat) :
    (d.reserve allocator additional).contents = d.contents ∧
      (d.reserve allocator additional).len = d.len ∧
      d.len + additional ≤ (d.reserve allocator additional).cells.length := by
  unfold reserve
  split
  · have henough := allocator.enough (d.len + additional - d.cells.length)
    refine ⟨contents_grow d _, len_grow d _, ?_⟩
    rw [length_cells_grow]
    omega
  · exact ⟨rfl, rfl, by omega⟩

/-- Writes a run of cells from a place in the store on, around the end if need be. -/
def copySlice (cells : List α) (pos : Nat) (source : List α) : List α :=
  let headRoom := cells.length - pos
  if source.length ≤ headRoom then splice cells pos source
  else splice (splice cells pos (source.take headRoom)) 0 (source.drop headRoom)

theorem length_copySlice {cells source : List α} {pos : Nat} (hpos : pos ≤ cells.length)
    (hroom : source.length ≤ cells.length) :
    (copySlice cells pos source).length = cells.length := by
  unfold copySlice
  by_cases hone : source.length ≤ cells.length - pos
  · simp only [if_pos hone]
    exact length_splice (by omega)
  · simp only [if_neg hone]
    have hfirst : (splice cells pos (source.take (cells.length - pos))).length = cells.length :=
      length_splice (by rw [List.length_take]; omega)
    rw [length_splice, hfirst]
    rw [hfirst, List.length_drop]
    omega

/-- Cell `j` of the source ends up `j` places after the first one, around the end; the
others stay. -/
theorem getElem?_copySlice {cells source : List α} {pos : Nat} (hpos : pos ≤ cells.length)
    (hroom : source.length ≤ cells.length) (i : Nat) :
    (copySlice cells pos source)[i]? =
      if pos ≤ i ∧ i < min (pos + source.length) cells.length then source[i - pos]?
      else if i + cells.length < pos + source.length then source[i + cells.length - pos]?
      else cells[i]? := by
  unfold copySlice
  by_cases hone : source.length ≤ cells.length - pos
  · simp only [if_pos hone]
    rw [getElem?_splice (by omega), Nat.min_eq_left (by omega)]
    by_cases hin : pos ≤ i ∧ i < pos + source.length
    · rw [if_pos hin, if_pos hin]
    · rw [if_neg hin, if_neg hin, if_neg (by omega)]
  · simp only [if_neg hone]
    have hfit : pos + (source.take (cells.length - pos)).length ≤ cells.length := by
      rw [List.length_take]
      omega
    have hlen := length_splice hfit
    have hfit' : 0 + (source.drop (cells.length - pos)).length ≤
        (splice cells pos (source.take (cells.length - pos))).length := by
      rw [hlen, List.length_drop]
      omega
    rw [getElem?_splice hfit', getElem?_splice hfit, Nat.min_eq_right (by omega),
      List.length_take, List.length_drop]
    by_cases hfront : i < source.length - (cells.length - pos)
    · rw [if_pos (by omega), if_neg (by omega), if_pos (by omega), List.getElem?_drop]
      congr 1
      omega
    · rw [if_neg (by omega)]
      by_cases hback : pos ≤ i ∧ i < cells.length
      · rw [if_pos (by omega), if_pos hback, List.getElem?_take_of_lt (by omega)]
      · rw [if_neg (by omega), if_neg hback, if_neg (by omega)]

theorem toPhysical_le (d : Deque α) : d.toPhysical d.len ≤ d.cells.length := by
  have hhead := d.head_le
  have hlen := d.len_le
  unfold toPhysical wrapIndex
  split <;> omega

/-- Writes behind the last cell, where there is room. -/
def append (d : Deque α) (source : List α) (hroom : d.len + source.length ≤ d.cells.length) :
    Deque α where
  cells := copySlice d.cells (d.toPhysical d.len) source
  head := d.head
  len := d.len + source.length
  head_le := by
    rw [length_copySlice (toPhysical_le d) (by omega)]
    exact d.head_le
  len_le := by
    rw [length_copySlice (toPhysical_le d) (by omega)]
    exact hroom

theorem contents_append (d : Deque α) (source : List α)
    (hroom : d.len + source.length ≤ d.cells.length) :
    (d.append source hroom).contents = d.contents ++ source := by
  have hhead := d.head_le
  have hpos := toPhysical_le d
  apply contents_eq
  · rw [List.length_append, length_contents]
    rfl
  · intro i hi
    change i < d.len + source.length at hi
    change (copySlice d.cells (d.toPhysical d.len) source)[wrapIndex (d.head + i)
      (copySlice d.cells (d.toPhysical d.len) source).length]? = _
    rw [length_copySlice hpos (by omega), getElem?_copySlice hpos (by omega)]
    by_cases hold : i < d.len
    · rw [List.getElem?_append_left (by rw [length_contents]; exact hold), getElem?_contents,
        if_pos hold]
      unfold toPhysical wrapIndex
      split <;> split <;> rw [if_neg (by omega), if_neg (by omega)]
    · rw [List.getElem?_append_right (by rw [length_contents]; omega), length_contents]
      unfold toPhysical
      by_cases hstart : d.head + d.len < d.cells.length
      · rw [wrapIndex_of_lt hstart]
        by_cases hplace : d.head + i < d.cells.length
        · rw [wrapIndex_of_lt hplace, if_pos (by omega)]
          congr 1
          omega
        · rw [wrapIndex_of_le (by omega), if_neg (by omega), if_pos (by omega)]
          congr 1
          omega
      · rw [wrapIndex_of_le (by omega), wrapIndex_of_le (by omega), if_pos (by omega)]
        congr 1
        omega

/-- Adds cells at the end. -/
def extend (d : Deque α) (allocator : Allocator α) (source : List α) : Deque α :=
  (d.reserve allocator source.length).append source (by
    obtain ⟨-, hlen, hroom⟩ := reserve_spec d allocator source.length
    rw [hlen]
    exact hroom)

theorem contents_extend (d : Deque α) (allocator : Allocator α) (source : List α) :
    (d.extend allocator source).contents = d.contents ++ source := by
  rw [extend, contents_append, (reserve_spec d allocator source.length).1]

def clear (d : Deque α) : Deque α := d.drain d.len

@[simp] theorem contents_clear (d : Deque α) : d.clear.contents = [] := by
  rw [clear, contents_drain, List.drop_eq_nil_of_le (Nat.le_of_eq (length_contents d))]

end Deque
end Shelly
