/-! The per-worker system call filter: its compile-time mode and what applying
it does, for what the kernel answers. -/
namespace RlboxDynamic

/-- `rlbox::seccomp::Mode`. -/
inductive Mode where
  | off
  | audit
  | enforce
  deriving DecidableEq, Repr

/-- What the installed filter does with a call it does not allow. -/
inductive TerminalAction where
  | log
  | killProcess
  deriving DecidableEq, Repr

/-- `terminal` in `apply_filter`. -/
def Mode.terminal (mode : Mode) : TerminalAction :=
  if mode = .audit then .log else .killProcess

/-- Whether `prctl(PR_SET_NO_NEW_PRIVS)` and the `seccomp` system call succeed. -/
structure FilterAnswers where
  noNewPrivs : Bool
  setModeFilter : Bool
  deriving DecidableEq

/-- `install_filter`: what it returns, with the filter it leaves in force. -/
def installFilter (terminal : TerminalAction) (os : FilterAnswers) :
    Bool × Option TerminalAction :=
  if os.setModeFilter then (true, some terminal) else (false, none)

/-- `apply_filter`. -/
def applyFilter (mode : Mode) (os : FilterAnswers) : Bool × Option TerminalAction :=
  if mode = .off then (true, none)
  else if os.noNewPrivs = false then (false, none)
  else installFilter mode.terminal os

/-- Outside mode Off, true means that the filter is in force. -/
theorem applyFilter_installs (on : mode ≠ .off) (ok : (applyFilter mode os).1 = true) :
    (applyFilter mode os).2 = some mode.terminal := by
  unfold applyFilter installFilter at *
  grind

end RlboxDynamic
