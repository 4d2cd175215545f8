import Mathlib.Data.List.Basic
import Mathlib.Tactic.IntervalCases
import Mathlib.Tactic.FinCases
import Shelly.Daemon.Screen

namespace Shelly.Daemon

/-- The parameters of an attribute sequence, each with its sub-parameters. -/
abbrev SgrParams := List (List Nat)

/-- Parameters that every terminal takes: not too many, and numbers of two bytes. -/
def SgrParams.WellFormed (params : SgrParams) : Prop :=
  params ≠ [] ∧ (params.map List.length).sum ≤ 32 ∧
    ∀ values ∈ params, values ≠ [] ∧ ∀ value ∈ values, value < 2 ^ 16

instance (params : SgrParams) : Decidable params.WellFormed :=
  inferInstanceAs (Decidable (_ ∧ _ ∧ _))

/-- Parameters are separated by semicolons, their sub-parameters by colons. -/
def encodeSgr (params : SgrParams) : List UInt8 :=
  [0x3b].intercalate (params.map fun values => [0x3a].intercalate (values.map pushU16))

/-- `ESC [ params m`. -/
def sgrBytes (params : SgrParams) : List UInt8 := csi ++ encodeSgr params ++ [0x6d]

/-- The underline styles in the order of their numbers; 0 is none. -/
def StyleFlags.withUnderline (flags : StyleFlags) (style : Nat) : StyleFlags :=
  { flags with
    underline := style == 1
    doubleUnderline := style == 2
    undercurl := style == 3
    dottedUnderline := style == 4
    dashedUnderline := style == 5 }

/-- Which of the three colours a colour is for. -/
inductive Role
  | foreground | background | underline
  deriving DecidableEq

/-- The parameter that begins an extended colour. -/
def Role.code : Role → Nat
  | .foreground => 38
  | .background => 48
  | .underline => 58

def Role.ofCode (value : Nat) : Option Role :=
  [.foreground, .background, .underline].find? fun role => role.code = value

namespace CellAttributes

def setColor (a : CellAttributes) (color : Color) : Role → CellAttributes
  | .foreground => { a with foreground := color }
  | .background => { a with background := color }
  | .underline => { a with underlineColor := some color }

/-- The colours of the palette that one parameter names. -/
def sgrColor (a : CellAttributes) (value : Nat) : Option CellAttributes :=
  if 30 ≤ value ∧ value < 38 then
    some (a.setColor (.named (.ansi (Fin.ofNat 8 (value - 30)))) .foreground)
  else if 40 ≤ value ∧ value < 48 then
    some (a.setColor (.named (.ansi (Fin.ofNat 8 (value - 40)))) .background)
  else if 90 ≤ value ∧ value < 98 then
    some (a.setColor (.named (.brightAnsi (Fin.ofNat 8 (value - 90)))) .foreground)
  else if 100 ≤ value ∧ value < 108 then
    some (a.setColor (.named (.brightAnsi (Fin.ofNat 8 (value - 100)))) .background)
  else none

/-- What one parameter does to the attributes. Parameters that terminals do not agree on are left
out. -/
def sgrParam (a : CellAttributes) : List Nat → Option CellAttributes
  | [0] => some .default
  | [1] => some { a with flags := { a.flags with bold := true } }
  | [2] => some { a with flags := { a.flags with dim := true } }
  | [3] => some { a with flags := { a.flags with italic := true } }
  | [4] => some { a with flags := a.flags.withUnderline 1 }
  | [4, style] => if style ≤ 5 then some { a with flags := a.flags.withUnderline style } else none
  | [7] => some { a with flags := { a.flags with inverse := true } }
  | [8] => some { a with flags := { a.flags with hidden := true } }
  | [9] => some { a with flags := { a.flags with strikeout := true } }
  | [22] => some { a with flags := { a.flags with bold := false, dim := false } }
  | [23] => some { a with flags := { a.flags with italic := false } }
  | [24] => some { a with flags := a.flags.withUnderline 0 }
  | [27] => some { a with flags := { a.flags with inverse := false } }
  | [28] => some { a with flags := { a.flags with hidden := false } }
  | [29] => some { a with flags := { a.flags with strikeout := false } }
  | [39] => some (a.setColor (.named .foreground) .foreground)
  | [49] => some (a.setColor (.named .background) .background)
  | [59] => some { a with underlineColor := none }
  | [value] => a.sgrColor value
  | _ => none

/-- The colour that a list of parameters spells out; `none` while it is not complete. -/
def extendedColor : List Nat → Option Color
  | [5, index] => some (.indexed index.toUInt8)
  | [2, r, g, b] => some (.spec ⟨r.toUInt8, g.toUInt8, b.toUInt8⟩)
  | _ => none

end CellAttributes

/-- A reader of attribute parameters: the attributes so far, and the parameters of an extended
colour that is not complete. -/
structure SgrState where
  attrs : CellAttributes
  pending : Option (Role × List Nat)

/-- Reads a parameter. An extended colour is made of parameters of one byte. -/
def SgrState.read (s : SgrState) (values : List Nat) : Option SgrState :=
  match s.pending, values with
  | none, [value] =>
    match Role.ofCode value with
    | some role => some { s with pending := some (role, []) }
    | none => (s.attrs.sgrParam [value]).map fun attrs => ⟨attrs, none⟩
  | none, values => (s.attrs.sgrParam values).map fun attrs => ⟨attrs, none⟩
  | some (role, seen), [value] =>
    if value ≤ 255 then
      match CellAttributes.extendedColor (seen ++ [value]) with
      | some color => some ⟨s.attrs.setColor color role, none⟩
      | none => some { s with pending := some (role, seen ++ [value]) }
    else none
  | some _, _ => none

/-- What an attribute sequence does to the attributes, if all of its parameters have a meaning. -/
def applySgr (params : SgrParams) (attrs : CellAttributes) : Option CellAttributes :=
  (params.foldlM SgrState.read ⟨attrs, none⟩).bind fun s =>
    if s.pending = none then some s.attrs else none

def flagParam (flag : Bool) (value : Nat) : SgrParams := if flag then [[value]] else []

def underlineParams (flags : StyleFlags) : SgrParams :=
  if flags.underline then [[4]]
  else if flags.doubleUnderline then [[4, 2]]
  else if flags.undercurl then [[4, 3]]
  else if flags.dottedUnderline then [[4, 4]]
  else if flags.dashedUnderline then [[4, 5]]
  else []

def colorParams (color : Color) (extendedCode : Nat) (foreground : Bool) : SgrParams :=
  match color with
  | .named (.ansi index) => [[(if foreground then 30 else 40) + index]]
  | .named (.brightAnsi index) => [[(if foreground then 90 else 100) + index]]
  | .named _ => []
  | .indexed index => [[extendedCode], [5], [index.toNat]]
  | .spec rgb => [[extendedCode], [2], [rgb.r.toNat], [rgb.g.toNat], [rgb.b.toNat]]

/-- The parameters that `push_sgr` writes. -/
def sgrParams (attrs : CellAttributes) : SgrParams :=
  [[0]] ++ flagParam attrs.flags.bold 1 ++ flagParam attrs.flags.dim 2 ++
    flagParam attrs.flags.italic 3 ++ underlineParams attrs.flags ++
    flagParam attrs.flags.inverse 7 ++ flagParam attrs.flags.hidden 8 ++
    flagParam attrs.flags.strikeout 9 ++ colorParams attrs.foreground 38 true ++
    colorParams attrs.background 48 false ++
    attrs.underlineColor.elim [] fun color => colorParams color 58 false

section WellFormed

/-- A part of the parameters: so many of them, all of one byte. -/
def SgrParams.Part (params : SgrParams) (count : Nat) : Prop :=
  (params.map List.length).sum ≤ count ∧
    ∀ values ∈ params, values ≠ [] ∧ ∀ value ∈ values, value ≤ 255

theorem SgrParams.Part.append {p q : SgrParams} {m n : Nat} (hp : p.Part m) (hq : q.Part n) :
    SgrParams.Part (p ++ q) (m + n) := by
  refine ⟨?_, fun values h => ?_⟩
  · rw [List.map_append, List.sum_append]
    exact Nat.add_le_add hp.1 hq.1
  · rcases List.mem_append.mp h with h | h
    · exact hp.2 values h
    · exact hq.2 values h

theorem flagParam_part (flag : Bool) {value : Nat} (h : value ≤ 255) :
    (flagParam flag value).Part 1 := by
  cases flag <;> simp [flagParam, SgrParams.Part, h]

theorem underlineParams_part (flags : StyleFlags) : (underlineParams flags).Part 2 := by
  unfold underlineParams
  split_ifs <;> simp [SgrParams.Part]

theorem colorParams_part (color : Color) {code : Nat} (h : code ≤ 255) (foreground : Bool) :
    (colorParams color code foreground).Part 5 := by
  have hbyte (x : UInt8) : x.toNat ≤ 255 := Nat.le_of_lt_succ x.toNat_lt
  cases color with
  | named name =>
    cases name with
    | ansi index =>
      have := index.isLt
      cases foreground <;> simp [colorParams, SgrParams.Part] <;> omega
    | brightAnsi index =>
      have := index.isLt
      cases foreground <;> simp [colorParams, SgrParams.Part] <;> omega
    | _ => simp [colorParams, SgrParams.Part]
  | spec rgb => simp [colorParams, SgrParams.Part, h, hbyte]
  | indexed index => simp [colorParams, SgrParams.Part, h, hbyte]

/-- The longest attribute sequence has twenty-four numbers. -/
theorem wellFormed_sgrParams (attrs : CellAttributes) : (sgrParams attrs).WellFormed := by
  have hunderlineColor : SgrParams.Part
      (attrs.underlineColor.elim [] fun color => colorParams color 58 false) 5 := by
    cases attrs.underlineColor with
    | none => simp [SgrParams.Part]
    | some color => exact colorParams_part color (by decide) false
  have hpart : (sgrParams attrs).Part 24 :=
    (((((((((((show SgrParams.Part [[0]] 1 by simp [SgrParams.Part]).append
      (flagParam_part _ (by decide))).append (flagParam_part _ (by decide))).append
      (flagParam_part _ (by decide))).append (underlineParams_part _)).append
      (flagParam_part _ (by decide))).append (flagParam_part _ (by decide))).append
      (flagParam_part _ (by decide))).append (colorParams_part _ (by decide) _)).append
      (colorParams_part _ (by decide) _)).append hunderlineColor)
  refine ⟨by simp [sgrParams], Nat.le_trans hpart.1 (by decide), fun values h => ?_⟩
  obtain ⟨hne, hle⟩ := hpart.2 values h
  exact ⟨hne, fun value hvalue => Nat.lt_of_le_of_lt (hle value hvalue) (by decide)⟩

end WellFormed

section Encode

variable {params : SgrParams} {values : List Nat} {value : Nat}

/-- An attribute sequence with these parameters, before its end. -/
def sgrOut (params : SgrParams) : SgrOut := (csi ++ encodeSgr params, params.isEmpty)

theorem intercalate_snoc {α : Type*} (sep x : List α) (l : List (List α)) :
    sep.intercalate (l ++ [x]) = if l = [] then x else sep.intercalate l ++ sep ++ x := by
  induction l with
  | nil => simp [List.intercalate]
  | cons y l ih =>
    cases l with
    | nil => simp [List.intercalate]
    | cons z l =>
      have hrest : sep.intercalate (z :: l ++ [x]) = sep.intercalate (z :: l) ++ sep ++ x := by
        simpa using ih
      simp only [List.intercalate, List.cons_append, List.intersperse_cons_cons, List.flatten_cons,
        List.append_assoc] at hrest ⊢
      simp [hrest]

theorem pushSgrSubparams_out :
    pushSgrSubparams values (sgrOut params) = sgrOut (params ++ [values]) := by
  have hsnoc : encodeSgr (params ++ [values]) =
      if params = [] then [0x3a].intercalate (values.map pushU16)
      else encodeSgr params ++ [0x3b] ++ [0x3a].intercalate (values.map pushU16) := by
    simp only [encodeSgr, List.map_append, List.map_cons, List.map_nil, intercalate_snoc,
      List.map_eq_nil_iff]
  cases params with
  | nil => simp [pushSgrSubparams, pushSeparator, sgrOut, encodeSgr, List.intercalate]
  | cons p ps =>
    have hne : p :: ps ≠ [] := List.cons_ne_nil p ps
    rw [sgrOut, sgrOut, hsnoc, if_neg hne]
    simp [pushSgrSubparams, pushSeparator]

theorem pushSgrParam_out : pushSgrParam value (sgrOut params) = sgrOut (params ++ [[value]]) := by
  rw [← pushSgrSubparams_out]
  simp [pushSgrParam, pushSgrSubparams, List.intercalate]

theorem pushIf_out (flag : Bool) :
    pushIf flag (pushSgrParam value) (sgrOut params) = sgrOut (params ++ flagParam flag value) := by
  cases flag with
  | false => simp [pushIf, flagParam]
  | true => exact pushSgrParam_out

theorem pushUnderline_out (flags : StyleFlags) :
    pushUnderline flags (sgrOut params) = sgrOut (params ++ underlineParams flags) := by
  simp only [pushUnderline, underlineParams, pushSgrParam_out, pushSgrSubparams_out]
  split_ifs <;> simp

theorem pushColorParam_out (color : Color) (code : Nat) (foreground : Bool) :
    pushColorParam color code foreground (sgrOut params) =
      sgrOut (params ++ colorParams color code foreground) := by
  cases color with
  | named name =>
    cases name <;> simp [pushColorParam, colorParams, pushSgrParam_out]
  | spec rgb => simp [pushColorParam, colorParams, pushSgrParam_out]
  | indexed index => simp [pushColorParam, colorParams, pushSgrParam_out]

theorem pushSgr_eq (attrs : CellAttributes) : pushSgr attrs = sgrBytes (sgrParams attrs) := by
  have hstart : ((csi, true) : SgrOut) = sgrOut [] := by simp [sgrOut, encodeSgr, List.intercalate]
  have hout : pushSgr attrs = (sgrOut (sgrParams attrs)).1 ++ [0x6d] := by
    simp only [pushSgr, hstart, pushSgrParam_out, pushIf_out, pushUnderline_out,
      pushColorParam_out]
    cases hu : attrs.underlineColor with
    | none => simp [sgrParams, hu]
    | some color => simp [sgrParams, hu]
  rw [hout, sgrBytes, sgrOut]

end Encode

/-- A colour that a parameter can give to a role: any but the names of the other roles. -/
def Color.Expressible (role : Role) : Color → Prop
  | .named .foreground => role = .foreground
  | .named .background => role = .background
  | .named (.ansi _) | .named (.brightAnsi _) => role ≠ .underline
  | .named _ => False
  | .spec _ | .indexed _ => True

instance (role : Role) (color : Color) : Decidable (color.Expressible role) := by
  unfold Color.Expressible
  split <;> infer_instance

/-- Attributes that a sequence of parameters can give: a text has at most one underline. -/
structure CellAttributes.Expressible (a : CellAttributes) : Prop where
  foreground : a.foreground.Expressible .foreground
  background : a.background.Expressible .background
  underlineColor : ∀ color ∈ a.underlineColor, color.Expressible .underline
  underline : ∃ style ≤ 5, a.flags = a.flags.withUnderline style

theorem default_expressible : CellAttributes.default.Expressible :=
  ⟨rfl, rfl, nofun, 0, by decide, rfl⟩

section Decode

variable {a b : CellAttributes} {color : Color} {value : Nat}

theorem ofCode_code (role : Role) : Role.ofCode role.code = some role := by
  cases role <;> rfl

/-- A parameter that begins no extended colour is read by itself. -/
theorem foldlM_single (hvalue : Role.ofCode value = none) (hset : a.sgrParam [value] = some b) :
    [[value]].foldlM SgrState.read ⟨a, none⟩ = some ⟨b, none⟩ := by
  simp [SgrState.read, hvalue, hset]

theorem foldlM_flagParam {f : Bool → CellAttributes} (flag : Bool)
    (hvalue : Role.ofCode value = none) (hset : (f false).sgrParam [value] = some (f true)) :
    (flagParam flag value).foldlM SgrState.read ⟨f false, none⟩ = some ⟨f flag, none⟩ := by
  cases flag with
  | false => rfl
  | true => exact foldlM_single hvalue hset

theorem foldlM_underlineParams {flags : StyleFlags} {style : Nat} (hstyle : style ≤ 5)
    (hflags : flags = flags.withUnderline style) (hstart : a.flags = a.flags.withUnderline 0) :
    (underlineParams flags).foldlM SgrState.read ⟨a, none⟩ =
      some ⟨{ a with flags := a.flags.withUnderline style }, none⟩ := by
  rw [hflags]
  interval_cases style
  · rw [← hstart]
    rfl
  all_goals rfl

theorem sgrParam_color {role : Role} (hrole : role ≠ .underline) (index : Fin 8) :
    a.sgrParam [(if role = .foreground then 30 else 40) + index] =
        some (a.setColor (.named (.ansi index)) role) ∧
      a.sgrParam [(if role = .foreground then 90 else 100) + index] =
        some (a.setColor (.named (.brightAnsi index)) role) := by
  obtain ⟨i, hi⟩ := index
  cases role <;> interval_cases i <;> first | exact absurd rfl hrole | exact ⟨rfl, rfl⟩

theorem ofCode_color {role : Role} (index : Fin 8) :
    Role.ofCode ((if role = .foreground then 30 else 40) + index) = none ∧
      Role.ofCode ((if role = .foreground then 90 else 100) + index) = none := by
  obtain ⟨i, hi⟩ := index
  cases role <;> interval_cases i <;> exact ⟨rfl, rfl⟩

/-- The default colours are not written: the attributes are reset before. -/
theorem foldlM_colorParams {role : Role} (hcolor : color.Expressible role)
    (hforeground : role = .foreground → a.foreground = .named .foreground)
    (hbackground : role = .background → a.background = .named .background) :
    (colorParams color role.code (role = .foreground)).foldlM SgrState.read ⟨a, none⟩ =
      some ⟨a.setColor color role, none⟩ := by
  cases color with
  | named name =>
    cases name with
    | ansi index =>
      simp only [colorParams, decide_eq_true_eq]
      exact foldlM_single (ofCode_color index).1 (sgrParam_color hcolor index).1
    | brightAnsi index =>
      simp only [colorParams, decide_eq_true_eq]
      exact foldlM_single (ofCode_color index).2 (sgrParam_color hcolor index).2
    | foreground =>
      have ha : a.setColor (.named .foreground) role = a := by
        rw [show role = .foreground from hcolor, CellAttributes.setColor, ← hforeground hcolor]
      rw [ha]
      rfl
    | background =>
      have ha : a.setColor (.named .background) role = a := by
        rw [show role = .background from hcolor, CellAttributes.setColor, ← hbackground hcolor]
      rw [ha]
      rfl
    | cursor | dim | brightForeground | dimForeground => exact hcolor.elim
  | spec rgb =>
    have hle (x : UInt8) : x.toNat ≤ 255 := Nat.le_of_lt_succ x.toNat_lt
    simp [colorParams, SgrState.read, ofCode_code, CellAttributes.extendedColor, hle]
  | indexed index =>
    have hle : index.toNat ≤ 255 := Nat.le_of_lt_succ index.toNat_lt
    simp [colorParams, SgrState.read, ofCode_code, CellAttributes.extendedColor, hle]

theorem foldlM_append_some {p q : SgrParams} {s s' s'' : SgrState}
    (hp : p.foldlM SgrState.read s = some s') (hq : q.foldlM SgrState.read s' = some s'') :
    (p ++ q).foldlM SgrState.read s = some s'' := by
  rw [List.foldlM_append, hp]
  exact hq

/-- The default attributes with a style. -/
def CellAttributes.styled (flags : StyleFlags) : CellAttributes :=
  { CellAttributes.default with flags }

theorem foldlM_styleParams {flags : StyleFlags} {style : Nat} (hstyle : style ≤ 5)
    (hflags : flags = flags.withUnderline style) (pen : CellAttributes) :
    ([[0]] ++ flagParam flags.bold 1 ++ flagParam flags.dim 2 ++ flagParam flags.italic 3 ++
      underlineParams flags ++ flagParam flags.inverse 7 ++ flagParam flags.hidden 8 ++
      flagParam flags.strikeout 9).foldlM SgrState.read ⟨pen, none⟩ =
        some ⟨.styled flags, none⟩ := by
  have hreset : [[0]].foldlM SgrState.read ⟨pen, none⟩ = some ⟨.styled .empty, none⟩ :=
    foldlM_single rfl rfl
  have hbold := @foldlM_flagParam 1 (fun bold => .styled { StyleFlags.empty with bold })
    flags.bold rfl rfl
  have hdim := @foldlM_flagParam 2 (fun dim => .styled
    { StyleFlags.empty with bold := flags.bold, dim }) flags.dim rfl rfl
  have hitalic := @foldlM_flagParam 3 (fun italic => .styled
    { StyleFlags.empty with bold := flags.bold, dim := flags.dim, italic }) flags.italic rfl rfl
  have hunderline := @foldlM_underlineParams (.styled
    { StyleFlags.empty with bold := flags.bold, dim := flags.dim, italic := flags.italic })
    flags style hstyle hflags rfl
  let plain := flags.withUnderline style
  have hinverse := @foldlM_flagParam 7 (fun inverse => .styled
    { plain with inverse, hidden := false, strikeout := false }) flags.inverse rfl rfl
  have hhidden := @foldlM_flagParam 8 (fun hidden => .styled
    { plain with hidden, strikeout := false }) flags.hidden rfl rfl
  have hstrikeout := @foldlM_flagParam 9 (fun strikeout => .styled { plain with strikeout })
    flags.strikeout rfl rfl
  have hstyled := foldlM_append_some (foldlM_append_some (foldlM_append_some (foldlM_append_some
    (foldlM_append_some (foldlM_append_some (foldlM_append_some hreset hbold) hdim) hitalic)
    hunderline) hinverse) hhidden) hstrikeout
  rw [hstyled]
  change some (⟨.styled (flags.withUnderline style), none⟩ : SgrState) = _
  rw [← hflags]

/-- An attribute sequence does not depend on the attributes before it. -/
theorem applySgr_sgrParams {attrs : CellAttributes} (h : attrs.Expressible)
    (pen : CellAttributes) : applySgr (sgrParams attrs) pen = some attrs := by
  obtain ⟨style, hstyle, hflags⟩ := h.underline
  have hrun : (sgrParams attrs).foldlM SgrState.read ⟨pen, none⟩ = some ⟨attrs, none⟩ := by
    have hforeground := foldlM_append_some (foldlM_styleParams hstyle hflags pen)
      (foldlM_colorParams h.foreground (fun _ => rfl) nofun)
    have hcolors := foldlM_append_some hforeground
      (foldlM_colorParams h.background nofun (fun _ => rfl))
    cases hu : attrs.underlineColor with
    | none =>
      have hattrs : attrs = { attrs with underlineColor := none } := by rw [← hu]
      rw [sgrParams, hu, Option.elim_none, List.append_nil, hattrs]
      exact hcolors
    | some color =>
      have hattrs : attrs = attrs.setColor color .underline := by
        rw [CellAttributes.setColor, ← hu]
      rw [sgrParams, hu, Option.elim_some]
      conv_rhs => rw [hattrs]
      exact foldlM_append_some hcolors
        (foldlM_colorParams (h.underlineColor color hu) nofun nofun)
  simp [applySgr, hrun]

section Expressible

theorem setColor_expressible (h : a.Expressible) {role : Role} (hcolor : color.Expressible role) :
    (a.setColor color role).Expressible := by
  cases role with
  | foreground => exact ⟨hcolor, h.background, h.underlineColor, h.underline⟩
  | background => exact ⟨h.foreground, hcolor, h.underlineColor, h.underline⟩
  | underline =>
    refine ⟨h.foreground, h.background, fun color' hcolor' => ?_, h.underline⟩
    obtain rfl : color = color' := Option.some.inj hcolor'
    exact hcolor

theorem sgrColor_expressible (h : a.Expressible) (hb : a.sgrColor value = some b) :
    b.Expressible := by
  unfold CellAttributes.sgrColor at hb
  split_ifs at hb <;> obtain rfl := Option.some.inj hb
  · exact @setColor_expressible a _ h .foreground nofun
  · exact @setColor_expressible a _ h .background nofun
  · exact @setColor_expressible a _ h .foreground nofun
  · exact @setColor_expressible a _ h .background nofun

theorem withUnderline_expressible (h : a.Expressible) {style : Nat} (hstyle : style ≤ 5) :
    CellAttributes.Expressible { a with flags := a.flags.withUnderline style } :=
  ⟨h.foreground, h.background, h.underlineColor, style, hstyle, rfl⟩

/-- A change of the style that leaves the underline alone. -/
theorem style_expressible (h : a.Expressible) (f : StyleFlags → StyleFlags)
    (hf : ∀ flags style, f (flags.withUnderline style) = (f flags).withUnderline style) :
    CellAttributes.Expressible { a with flags := f a.flags } := by
  obtain ⟨style, hstyle, hflags⟩ := h.underline
  refine ⟨h.foreground, h.background, h.underlineColor, style, hstyle, ?_⟩
  change f a.flags = (f a.flags).withUnderline style
  rw [← hf, ← hflags]

/-- No parameter sets more than one underline. -/
theorem sgrParam_expressible (h : a.Expressible) {values : List Nat}
    (hb : a.sgrParam values = some b) : b.Expressible := by
  unfold CellAttributes.sgrParam at hb
  split at hb <;> try obtain rfl := Option.some.inj hb
  case h_1 => exact default_expressible
  case h_2 => exact style_expressible h (fun flags => { flags with bold := true }) fun _ _ => rfl
  case h_3 => exact style_expressible h (fun flags => { flags with dim := true }) fun _ _ => rfl
  case h_4 => exact style_expressible h (fun flags => { flags with italic := true }) fun _ _ => rfl
  case h_5 => exact withUnderline_expressible h (by decide)
  case h_6 =>
    split_ifs at hb with hstyle
    obtain rfl := Option.some.inj hb
    exact withUnderline_expressible h hstyle
  case h_7 => exact style_expressible h (fun flags => { flags with inverse := true }) fun _ _ => rfl
  case h_8 => exact style_expressible h (fun flags => { flags with hidden := true }) fun _ _ => rfl
  case h_9 =>
    exact style_expressible h (fun flags => { flags with strikeout := true }) fun _ _ => rfl
  case h_10 =>
    exact style_expressible h (fun flags => { flags with bold := false, dim := false }) fun _ _ => rfl
  case h_11 => exact style_expressible h (fun flags => { flags with italic := false }) fun _ _ => rfl
  case h_12 => exact withUnderline_expressible h (by decide)
  case h_13 => exact style_expressible h (fun flags => { flags with inverse := false }) fun _ _ => rfl
  case h_14 => exact style_expressible h (fun flags => { flags with hidden := false }) fun _ _ => rfl
  case h_15 =>
    exact style_expressible h (fun flags => { flags with strikeout := false }) fun _ _ => rfl
  case h_16 => exact @setColor_expressible a _ h .foreground rfl
  case h_17 => exact @setColor_expressible a _ h .background rfl
  case h_18 => exact ⟨h.foreground, h.background, nofun, h.underline⟩
  case h_19 => exact sgrColor_expressible h hb
  case h_20 => cases hb

theorem read_expressible {s s' : SgrState} (h : s.attrs.Expressible) {values : List Nat}
    (hs : s.read values = some s') : s'.attrs.Expressible := by
  unfold SgrState.read at hs
  split at hs
  · split at hs
    · obtain rfl := Option.some.inj hs
      exact h
    · obtain ⟨attrs, hattrs, rfl⟩ := Option.map_eq_some_iff.mp hs
      exact sgrParam_expressible h hattrs
  · obtain ⟨attrs, hattrs, rfl⟩ := Option.map_eq_some_iff.mp hs
    exact sgrParam_expressible h hattrs
  · split_ifs at hs
    split at hs <;> obtain rfl := Option.some.inj hs
    · next hcolor =>
      refine setColor_expressible h ?_
      unfold CellAttributes.extendedColor at hcolor
      split at hcolor
      · obtain rfl := Option.some.inj hcolor
        trivial
      · obtain rfl := Option.some.inj hcolor
        trivial
      · cases hcolor
    · exact h
  · cases hs

theorem applySgr_expressible (h : a.Expressible) {params : SgrParams}
    (hb : applySgr params a = some b) : b.Expressible := by
  obtain ⟨s, hs, hdone⟩ := Option.bind_eq_some_iff.mp hb
  have hrun : ∀ (params : SgrParams) (s s' : SgrState), s.attrs.Expressible →
      params.foldlM SgrState.read s = some s' → s'.attrs.Expressible := by
    intro params
    induction params with
    | nil =>
      intro s s' h hs
      obtain rfl := Option.some.inj hs
      exact h
    | cons values params ih =>
      intro s s' h hs
      rw [List.foldlM_cons] at hs
      obtain ⟨s₁, hs₁, hrest⟩ := Option.bind_eq_some_iff.mp hs
      exact ih s₁ s' (read_expressible h hs₁) hrest
  split_ifs at hdone
  obtain rfl := Option.some.inj hdone
  exact hrun params ⟨a, none⟩ s h hs

end Expressible

end Decode

end Shelly.Daemon
