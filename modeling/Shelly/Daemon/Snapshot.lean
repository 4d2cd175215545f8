import Shelly.Daemon.AnsiStandard
import Shelly.Daemon.Rehydrate

namespace Shelly.Daemon

variable {T : Type*} {E : Emulator T} {width : Char → Nat} {view : T → Option View}

/-- A snapshot rehydrates a screen whose rows stay in their lines and whose cells are aligned: all
that can be seen is reached in its own column. Of rows that stay in their lines no others are
rehydrated. -/
theorem snapshot_rehydrates (S : Standard E width view) {size : ClientSize}
    (hsize : invalidClientSize size = none) {bytes : List UInt8} {r : Responder}
    {m : TerminalModel T} {screen : Screen}
    (hm : ((TerminalModel.new E size 0).advanceBytes E 0 bytes r).2 = some m)
    (hscreen : E.screen m.terminal = some screen) :
    (screen.FitsRows width size.cols ∧ screen.AlignedRows width size.cols → m.Rehydrates E) ∧
      (screen.FitsRows width size.cols → m.Rehydrates E → screen.AlignedRows width size.cols) :=
  ⟨fun h => (S.rehydrates_iff hsize hm hscreen h.1).mpr h.2,
    fun hfits => (S.rehydrates_iff hsize hm hscreen hfits).mp⟩

/-- What is shown after a combined and a wide character. -/
def combined : View :=
  (((View.fresh ⟨4, 1⟩).perform (.print 'e')).perform (.print '\u0301')).perform (.print '世')

theorem read_combined :
    ansiTerminal.read [0x65, 0xcc, 0x81, 0xe4, 0xb8, 0x96] (ansiTerminal.new ⟨4, 1⟩) defaultTitle =
      some (⟨.ground .idle, combined⟩, defaultTitle) := by
  have hrun : Utf8.idle.run [0x65, 0xcc, 0x81, 0xe4, 0xb8, 0x96] =
      (.idle, ['e', '\u0301', '世']) := by decide
  have hread := @read_text defaultTitle [0x65, 0xcc, 0x81, 0xe4, 0xb8, 0x96] (by simp) .idle
    (View.fresh ⟨4, 1⟩)
  rw [hrun] at hread
  exact hread

theorem snapshot_rehydrates_combined : ∃ m,
    ((TerminalModel.new ansiTerminal ⟨4, 1⟩ 0).advanceBytes ansiTerminal 0
      [0x65, 0xcc, 0x81, 0xe4, 0xb8, 0x96] .new).2 = some m ∧ m.Rehydrates ansiTerminal := by
  obtain ⟨m, hm, hterminal, -⟩ := TerminalModel.advanceBytes_of_read read_combined .new
  have hscreen : ansiTerminal.screen m.terminal = some combined.screen := by rw [hterminal]; rfl
  exact ⟨m, hm, (snapshot_rehydrates ansiTerminal_standard rfl hm hscreen).1
    ⟨by decide, by decide⟩⟩

/-- What is shown after `a`, a tab and `b`. -/
def tabbed : View :=
  (((View.fresh ⟨16, 1⟩).perform (.print 'a')).perform .tab).perform (.print 'b')

theorem read_tabbed : ansiTerminal.read [0x61, 0x09, 0x62] (ansiTerminal.new ⟨16, 1⟩) defaultTitle =
    some (⟨.ground .idle, tabbed⟩, defaultTitle) := rfl

/-- The tab is drawn as a tab and then the blanks that it skipped as blanks. -/
theorem snapshot_shifts : Standard ansiTerminal ansiWidth AnsiTerminal.between ∧
    invalidClientSize ⟨16, 1⟩ = none ∧ ∃ m,
      ((TerminalModel.new ansiTerminal ⟨16, 1⟩ 0).advanceBytes ansiTerminal 0
        [0x61, 0x09, 0x62] .new).2 = some m ∧ ¬m.Rehydrates ansiTerminal := by
  obtain ⟨m, hm, hterminal, -⟩ := TerminalModel.advanceBytes_of_read read_tabbed .new
  have hscreen : ansiTerminal.screen m.terminal = some tabbed.screen := by rw [hterminal]; rfl
  have hfits : tabbed.screen.FitsRows ansiWidth 16 := by decide
  have haligned : ¬tabbed.screen.AlignedRows ansiWidth 16 := by decide
  exact ⟨ansiTerminal_standard, rfl, m, hm, fun h =>
    haligned ((ansiTerminal_standard.rehydrates_iff rfl hm hscreen hfits).mp h)⟩

end Shelly.Daemon
