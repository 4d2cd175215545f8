import Shelly.Daemon.Redraw

namespace Shelly.Daemon

/-- A character that is not complete: the value of its bytes so far, and how many are to come. -/
structure Utf8 where
  value : Nat
  more : Nat
  deriving DecidableEq

def Utf8.idle : Utf8 := ⟨0, 0⟩

/-- Reads a byte; the last one of a character completes it. -/
def Utf8.step (s : Utf8) (byte : UInt8) : Utf8 × Option Char :=
  let n := byte.toNat
  if s.more = 0 then
    if n < 0x80 then (.idle, some (Char.ofNat n))
    else if n < 0xc0 then (.idle, none)
    else if n < 0xe0 then (⟨n - 0xc0, 1⟩, none)
    else if n < 0xf0 then (⟨n - 0xe0, 2⟩, none)
    else (⟨n - 0xf0, 3⟩, none)
  else
    let value := s.value * 64 + (n - 0x80)
    if s.more = 1 then (.idle, some (Char.ofNat value)) else (⟨value, s.more - 1⟩, none)

/-- Where a terminal stands between two bytes. -/
inductive AnsiParser
  | ground (pending : Utf8)
  | escape
  | csi (params : List UInt8)
  | osc (text : List Char) (pending : Utf8)
  | oscEscape (text : List Char)
  deriving DecidableEq

/-- A terminal that knows the sequences of a snapshot and the modes. What does not fit the room or
the modes, it ignores. -/
structure AnsiTerminal where
  parser : AnsiParser
  view : View

/-- The columns of a character: none for combining marks, two for wide scripts. -/
def ansiWidth (c : Char) : Nat :=
  let n := c.toNat
  if (0x300 ≤ n ∧ n < 0x370) ∨ (0x200b ≤ n ∧ n < 0x200e) ∨ (0xfe00 ≤ n ∧ n < 0xfe10) then 0
  else if (0x1100 ≤ n ∧ n < 0x1160) ∨ (0x2e80 ≤ n ∧ n < 0xa4d0) ∨ (0xac00 ≤ n ∧ n < 0xd7a4) ∨
      (0xff01 ≤ n ∧ n < 0xff61) ∨ (0x1f300 ≤ n ∧ n < 0x1f650) ∨ 0x20000 ≤ n then 2
  else 1

def parseNumber (bytes : List UInt8) : Nat :=
  bytes.foldl (fun value byte => value * 10 + (byte.toNat - 48)) 0

def parseSgr (bytes : List UInt8) : SgrParams :=
  (bytes.splitOn 0x3b).map fun param => (param.splitOn 0x3a).map parseNumber

namespace View

def perform (v : View) (op : TermOp) : View :=
  if op.Fits ansiWidth v then op.apply ansiWidth v else v

def setModes (v : View) (modes : TermModes) : View :=
  { v with interpretation := { v.interpretation with modes } }

/-- `ESC [ params h` and `ESC [ params l`. -/
def setMode (v : View) (on : Bool) (params : List UInt8) : View :=
  let modes := v.interpretation.modes
  if params = [0x3f, 0x31, 0x30, 0x34, 0x39] then v.perform (.switchScreen on)
  else if params = [0x3f, 0x32, 0x35] then v.setModes { modes with showCursor := on }
  else if params = [0x3f, 0x31] then v.setModes { modes with applicationCursor := on }
  else if params = [0x3f, 0x36] then v.setModes { modes with origin := on }
  else if params = [0x3f, 0x37] then v.setModes { modes with autowrap := on }
  else if params = [0x3f, 0x32, 0x30, 0x30, 0x34] then v.setModes { modes with bracketedPaste := on }
  else if params = [0x34] then v.setModes { modes with insert := on }
  else v

/-- A control sequence with its last byte. -/
def dispatch (v : View) (params : List UInt8) (final : UInt8) : View :=
  if final = 0x6d then v.perform (.sgr (parseSgr params))
  else if final = 0x48 then
    match (params.splitOn 0x3b).map parseNumber with
    | [line, column] => v.perform (.moveTo (line - 1) (column - 1))
    | _ => v.perform .home
  else if final = 0x4a then if params = [0x32] then v.perform .clear else v
  else if final = 0x68 then v.setMode true params
  else if final = 0x6c then v.setMode false params
  else v

end View

namespace AnsiTerminal

/-- The end of a text; one that begins with `0;` sets the title. -/
def finish (v : View) (text : List Char) : List TermEvent × Option AnsiTerminal :=
  let title := String.ofList (text.drop 2)
  (if text.take 2 = ['0', ';'] ∧ CleanTitle title then [.title title] else [],
    some ⟨.ground .idle, v⟩)

def advance (t : AnsiTerminal) (byte : UInt8) : List TermEvent × Option AnsiTerminal :=
  match t.parser with
  | .ground pending =>
    if byte = 0x1b then ([], some ⟨.escape, t.view⟩)
    else if byte = 0x09 then ([], some ⟨.ground .idle, t.view.perform .tab⟩)
    else
      match pending.step byte with
      | (pending, some c) => ([], some ⟨.ground pending, t.view.perform (.print c)⟩)
      | (pending, none) => ([], some ⟨.ground pending, t.view⟩)
  | .escape =>
    if byte = 0x5b then ([], some ⟨.csi [], t.view⟩)
    else if byte = 0x5d then ([], some ⟨.osc [] .idle, t.view⟩)
    else ([], some ⟨.ground .idle, t.view⟩)
  | .csi params =>
    if byte = 0x1b then ([], some ⟨.escape, t.view⟩)
    else if 0x40 ≤ byte ∧ byte ≤ 0x7e then
      ([], some ⟨.ground .idle, t.view.dispatch params byte⟩)
    else ([], some ⟨.csi (params ++ [byte]), t.view⟩)
  | .osc text pending =>
    if byte = 0x1b then ([], some ⟨.oscEscape text, t.view⟩)
    else if byte = 0x07 then finish t.view text
    else
      match pending.step byte with
      | (pending, some c) => ([], some ⟨.osc (text ++ [c]) pending, t.view⟩)
      | (pending, none) => ([], some ⟨.osc text pending, t.view⟩)
  | .oscEscape text =>
    if byte = 0x5c then finish t.view text else ([], some ⟨.ground .idle, t.view⟩)

def between (t : AnsiTerminal) : Option View :=
  if t.parser = .ground .idle ∧ invalidClientSize t.view.size = none then some t.view else none

end AnsiTerminal

def ansiTerminal : Emulator AnsiTerminal where
  new size := ⟨.ground .idle, .fresh size⟩
  advance := AnsiTerminal.advance
  resize t size := some { t with view := { t.view with size } }
  screen t := some t.view.screen
  isEmpty := Cell.isEmpty

section Reading

variable {v : View} {title : String} {bytes : List UInt8}

theorem read_ansi (t t' : AnsiTerminal) (byte : UInt8) (bytes : List UInt8)
    (h : t.advance byte = ([], some t')) :
    ansiTerminal.read (byte :: bytes) t title = ansiTerminal.read bytes t' title := by
  rw [Emulator.read, show ansiTerminal.advance t byte = _ from h]
  rfl

theorem read_params {params acc : List UInt8}
    (hparams : ∀ byte ∈ params, 0x20 ≤ byte ∧ byte < 0x40) {final : UInt8}
    (hfinal : 0x40 ≤ final ∧ final ≤ 0x7e) (rest : List UInt8) :
    ansiTerminal.read (params ++ final :: rest) ⟨.csi acc, v⟩ title =
      ansiTerminal.read rest ⟨.ground .idle, v.dispatch (acc ++ params) final⟩ title := by
  induction params generalizing acc with
  | nil =>
    have hne : final ≠ 0x1b := by
      rintro rfl
      exact absurd hfinal.1 (by decide)
    rw [List.nil_append, List.append_nil]
    exact read_ansi _ _ _ _ (by simp [AnsiTerminal.advance, hne, hfinal])
  | cons byte params ih =>
    obtain ⟨hle, hlt⟩ := hparams byte (.head _)
    have hne : byte ≠ 0x1b := by
      rintro rfl
      exact absurd hle (by decide)
    have hmore : ¬(0x40 ≤ byte ∧ byte ≤ 0x7e) := fun h => absurd h.1 (UInt8.not_le.mpr hlt)
    rw [List.cons_append, read_ansi _ ⟨.csi (acc ++ [byte]), v⟩ _ _
      (by simp [AnsiTerminal.advance, hne, hmore]), ih fun b hb => hparams b (.tail _ hb)]
    simp

/-- A control sequence is read up to its last byte. -/
theorem read_csi {params : List UInt8} (hparams : ∀ byte ∈ params, 0x20 ≤ byte ∧ byte < 0x40)
    {final : UInt8} (hfinal : 0x40 ≤ final ∧ final ≤ 0x7e) (rest : List UInt8) :
    ansiTerminal.read (csi ++ params ++ final :: rest) ⟨.ground .idle, v⟩ title =
      ansiTerminal.read rest ⟨.ground .idle, v.dispatch params final⟩ title := by
  have hescape := @read_ansi title ⟨.ground .idle, v⟩ ⟨.escape, v⟩ 0x1b
    (0x5b :: (params ++ final :: rest)) (by simp [AnsiTerminal.advance])
  have hcsi := @read_ansi title ⟨.escape, v⟩ ⟨.csi [], v⟩ 0x5b (params ++ final :: rest)
    (by simp [AnsiTerminal.advance])
  exact hescape.trans (hcsi.trans (read_params hparams hfinal rest))

end Reading

section Numbers

theorem parseNumber_snoc (bytes : List UInt8) (byte : UInt8) :
    parseNumber (bytes ++ [byte]) = parseNumber bytes * 10 + (byte.toNat - 48) := by
  simp [parseNumber]

theorem digit_toNat (value : Nat) : (48 + value % 10).toUInt8.toNat = 48 + value % 10 := by
  simp only [Nat.toUInt8, UInt8.toNat_ofNat']
  omega

theorem parseNumber_pushDigits {count value : Nat} (h : value < 10 ^ count) :
    parseNumber (pushDigits count value) = value := by
  induction count generalizing value with
  | zero =>
    rw [Nat.pow_zero] at h
    simp [pushDigits, parseNumber]
    omega
  | succ count ih =>
    rw [pushDigits, parseNumber_snoc, digit_toNat]
    split
    · simp [parseNumber]
      omega
    · rw [ih (by rw [Nat.pow_succ] at h; omega)]
      omega

theorem parseNumber_pushU16 {value : Nat} (h : value < 2 ^ 16) :
    parseNumber (pushU16 value) = value :=
  parseNumber_pushDigits (by omega)

theorem mem_pushDigits {count value : Nat} {byte : UInt8} (h : byte ∈ pushDigits count value) :
    0x30 ≤ byte ∧ byte < 0x3a := by
  induction count generalizing value with
  | zero => cases h
  | succ count ih =>
    rw [pushDigits, List.mem_append] at h
    rcases h with h | h
    · split at h
      · cases h
      · exact ih h
    · rw [List.mem_singleton.mp h, UInt8.le_iff_toNat_le, UInt8.lt_iff_toNat_lt, digit_toNat]
      simp
      omega

theorem mem_intercalate {sep byte : UInt8} {parts : List (List UInt8)}
    (h : byte ∈ [sep].intercalate parts) : byte = sep ∨ ∃ part ∈ parts, byte ∈ part := by
  induction parts with
  | nil => cases h
  | cons part parts ih =>
    cases parts with
    | nil => exact .inr ⟨part, .head _, by simpa [List.intercalate] using h⟩
    | cons next parts =>
      have hsplit : byte ∈ part ∨ byte = sep ∨ byte ∈ [sep].intercalate (next :: parts) := by
        simpa [List.intercalate] using h
      rcases hsplit with h | h | h
      · exact .inr ⟨part, .head _, h⟩
      · exact .inl h
      · rcases ih h with h | ⟨part', hmem, h⟩
        · exact .inl h
        · exact .inr ⟨part', .tail _ hmem, h⟩

theorem mem_params {values : List Nat} {byte : UInt8}
    (h : byte ∈ [0x3a].intercalate (values.map pushU16)) : 0x30 ≤ byte ∧ byte < 0x3b := by
  rcases mem_intercalate h with rfl | ⟨part, hpart, h⟩
  · decide
  · obtain ⟨value, -, rfl⟩ := List.mem_map.mp hpart
    have hdigit := mem_pushDigits h
    exact ⟨hdigit.1, UInt8.lt_trans hdigit.2 (by decide)⟩

theorem mem_encodeSgr {params : SgrParams} {byte : UInt8} (h : byte ∈ encodeSgr params) :
    0x20 ≤ byte ∧ byte < 0x40 := by
  rcases mem_intercalate h with rfl | ⟨part, hpart, h⟩
  · decide
  · obtain ⟨values, -, rfl⟩ := List.mem_map.mp hpart
    have hparam := mem_params h
    exact ⟨UInt8.le_trans (by decide) hparam.1, UInt8.lt_trans hparam.2 (by decide)⟩

/-- Numbers that are joined by a separator are read back. -/
theorem parse_joined {sep : UInt8} (hsep : ¬(0x30 ≤ sep ∧ sep < 0x3a)) {values : List Nat}
    (hne : values ≠ []) (hvalues : ∀ value ∈ values, value < 2 ^ 16) :
    (([sep].intercalate (values.map pushU16)).splitOn sep).map parseNumber = values := by
  rw [List.splitOn_intercalate sep _ (by simpa using hne), List.map_map]
  · conv_rhs => rw [← List.map_id values]
    exact List.map_congr_left fun value h => parseNumber_pushU16 (hvalues value h)
  · intro part hpart hmem
    obtain ⟨value, -, rfl⟩ := List.mem_map.mp hpart
    exact hsep (mem_pushDigits hmem)

theorem parseSgr_encodeSgr {params : SgrParams} (h : params.WellFormed) :
    parseSgr (encodeSgr params) = params := by
  rw [parseSgr, encodeSgr, List.splitOn_intercalate _ _ (by simpa using h.1), List.map_map]
  · conv_rhs => rw [← List.map_id params]
    refine List.map_congr_left fun values hvalues => ?_
    obtain ⟨hne, hlt⟩ := h.2.2 values hvalues
    exact parse_joined (by decide) hne hlt
  · intro part hpart hmem
    obtain ⟨values, -, rfl⟩ := List.mem_map.mp hpart
    exact absurd (mem_params hmem).2 (by decide)

end Numbers

section Characters

/-- Reads bytes to the characters that they complete. -/
def Utf8.run : List UInt8 → Utf8 → Utf8 × List Char
  | [], s => (s, [])
  | byte :: bytes, s =>
    let (s, c) := s.step byte
    let (s, cs) := run bytes s
    (s, c.toList ++ cs)

theorem Utf8.run_cons (s : Utf8) (byte : UInt8) (bytes : List UInt8) :
    s.run (byte :: bytes) =
      (((s.step byte).1.run bytes).1, (s.step byte).2.toList ++ ((s.step byte).1.run bytes).2) :=
  rfl

theorem Utf8.step_next {value more : Nat} {byte : UInt8} {n : Nat} (hmore : more ≠ 0)
    (hbyte : byte.toNat = 0x80 + n) :
    Utf8.step ⟨value, more⟩ byte =
      if more = 1 then (.idle, some (Char.ofNat (value * 64 + n)))
      else (⟨value * 64 + n, more - 1⟩, none) := by
  simp [Utf8.step, hmore, hbyte]

theorem Utf8.step_two {byte : UInt8} {n : Nat} (hbyte : byte.toNat = 0xc0 + n) (hn : n < 0x20) :
    Utf8.idle.step byte = (⟨n, 1⟩, none) := by
  simp only [Utf8.step, Utf8.idle, hbyte]
  rw [if_pos trivial, if_neg (by omega), if_neg (by omega), if_pos (by omega),
    Nat.add_sub_cancel_left]

theorem Utf8.step_three {byte : UInt8} {n : Nat} (hbyte : byte.toNat = 0xe0 + n) (hn : n < 0x10) :
    Utf8.idle.step byte = (⟨n, 2⟩, none) := by
  simp only [Utf8.step, Utf8.idle, hbyte]
  rw [if_pos trivial, if_neg (by omega), if_neg (by omega), if_neg (by omega), if_pos (by omega),
    Nat.add_sub_cancel_left]

theorem Utf8.step_four {byte : UInt8} {n : Nat} (hbyte : byte.toNat = 0xf0 + n) :
    Utf8.idle.step byte = (⟨n, 3⟩, none) := by
  simp only [Utf8.step, Utf8.idle, hbyte]
  rw [if_pos trivial, if_neg (by omega), if_neg (by omega), if_neg (by omega), if_neg (by omega),
    Nat.add_sub_cancel_left]

theorem Utf8.run_encode (c : Char) : Utf8.idle.run (String.utf8EncodeChar c) = (.idle, [c]) := by
  have h := utf8EncodeChar_toNat c
  have hlt : c.toNat < 0x110000 := by
    rcases c.valid with h | ⟨-, h⟩
    · exact Nat.lt_trans h (by decide)
    · exact h
  split_ifs at h with hone htwo hthree <;>
    simp only [List.map_eq_cons_iff, List.map_eq_nil_iff] at h
  · obtain ⟨b₀, _, hbytes, h₀, rfl⟩ := h
    have hstep : Utf8.idle.step b₀ = (.idle, some c) := by
      simp [Utf8.step, Utf8.idle, h₀, hone]
    rw [hbytes, run_cons, hstep]
    rfl
  · obtain ⟨b₀, _, hbytes, h₀, b₁, _, rfl, h₁, rfl⟩ := h
    have hvalue : c.toNat / 64 * 64 + c.toNat % 64 = c.toNat := by omega
    rw [hbytes, run_cons, step_two h₀ (by omega), run_cons, step_next (by decide) h₁, if_pos rfl,
      hvalue, Char.ofNat_toNat]
    rfl
  · obtain ⟨b₀, _, hbytes, h₀, b₁, _, rfl, h₁, b₂, _, rfl, h₂, rfl⟩ := h
    have hvalue : (c.toNat / 4096 * 64 + c.toNat / 64 % 64) * 64 + c.toNat % 64 = c.toNat := by
      omega
    rw [hbytes, run_cons, step_three h₀ (by omega), run_cons, step_next (by decide) h₁,
      if_neg (by decide), run_cons, step_next (by decide) h₂, if_pos rfl, hvalue,
      Char.ofNat_toNat]
    rfl
  · obtain ⟨b₀, _, hbytes, h₀, b₁, _, rfl, h₁, b₂, _, rfl, h₂, b₃, _, rfl, h₃, rfl⟩ := h
    have hvalue : ((c.toNat / 262144 * 64 + c.toNat / 4096 % 64) * 64 + c.toNat / 64 % 64) * 64 +
        c.toNat % 64 = c.toNat := by omega
    rw [hbytes, run_cons, step_four h₀, run_cons, step_next (by decide) h₁, if_neg (by decide),
      run_cons, step_next (by decide) h₂, if_neg (by decide), run_cons, step_next (by decide) h₃,
      if_pos rfl, hvalue, Char.ofNat_toNat]
    rfl

theorem Utf8.run_append (bytes bytes' : List UInt8) (s : Utf8) :
    s.run (bytes ++ bytes') =
      (((s.run bytes).1.run bytes').1, (s.run bytes).2 ++ ((s.run bytes).1.run bytes').2) := by
  induction bytes generalizing s with
  | nil => rfl
  | cons byte bytes ih => rw [List.cons_append, run_cons, run_cons, ih, List.append_assoc]

theorem Utf8.run_flatMap_encode (cs : List Char) :
    Utf8.idle.run (cs.flatMap String.utf8EncodeChar) = (.idle, cs) := by
  induction cs with
  | nil => rfl
  | cons c cs ih => rw [List.flatMap_cons, run_append, run_encode, ih]; rfl

variable {v : View} {title : String}

/-- Bytes that are no control characters are read as text. -/
theorem read_text {bytes : List UInt8} (hbytes : ∀ byte ∈ bytes, 0x20 ≤ byte.toNat) (s : Utf8)
    (v : View) :
    ansiTerminal.read bytes ⟨.ground s, v⟩ title =
      some (⟨.ground (s.run bytes).1,
        (s.run bytes).2.foldl (fun v c => v.perform (.print c)) v⟩, title) := by
  induction bytes generalizing s v with
  | nil => rfl
  | cons byte bytes ih =>
    have hle := hbytes byte (.head _)
    have hescape : byte ≠ 0x1b := by
      rintro rfl
      revert hle
      decide
    have htab : byte ≠ 0x09 := by
      rintro rfl
      revert hle
      decide
    have hrest := ih fun b hb => hbytes b (.tail _ hb)
    rw [Utf8.run_cons]
    cases hstep : s.step byte with
    | mk s' c =>
      cases c with
      | none =>
        rw [read_ansi _ ⟨.ground s', v⟩ _ _ (by simp [AnsiTerminal.advance, hescape, htab, hstep]),
          hrest]
        rfl
      | some c =>
        rw [read_ansi _ ⟨.ground s', v.perform (.print c)⟩ _ _
          (by simp [AnsiTerminal.advance, hescape, htab, hstep]), hrest]
        rfl

/-- The text of an operating system command is read up to its end. -/
theorem read_osc {bytes : List UInt8} (hbytes : ∀ byte ∈ bytes, 0x20 ≤ byte.toNat) (s : Utf8)
    (text : List Char) :
    ansiTerminal.read (bytes ++ [0x1b, 0x5c]) ⟨.osc text s, v⟩ title =
      ansiTerminal.read [0x5c] ⟨.oscEscape (text ++ (s.run bytes).2), v⟩ title := by
  induction bytes generalizing s text with
  | nil =>
    rw [List.nil_append]
    refine read_ansi _ _ _ _ ?_
    simp [AnsiTerminal.advance, Utf8.run]
  | cons byte bytes ih =>
    have hle := hbytes byte (.head _)
    have hescape : byte ≠ 0x1b := by
      rintro rfl
      revert hle
      decide
    have hbell : byte ≠ 0x07 := by
      rintro rfl
      revert hle
      decide
    have hrest := ih fun b hb => hbytes b (.tail _ hb)
    rw [List.cons_append, Utf8.run_cons]
    cases hstep : s.step byte with
    | mk s' c =>
      cases c with
      | none =>
        rw [read_ansi _ ⟨.osc text s', v⟩ _ _
          (by simp [AnsiTerminal.advance, hescape, hbell, hstep]), hrest]
        rfl
      | some c =>
        rw [read_ansi _ ⟨.osc (text ++ [c]) s', v⟩ _ _
          (by simp [AnsiTerminal.advance, hescape, hbell, hstep]), hrest, List.append_assoc]
        rfl

end Characters

end Shelly.Daemon
