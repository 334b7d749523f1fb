import AutoInstrumentation.Lib.Regions
import AutoInstrumentation.Lib.Transition
import Mathlib.Data.List.DropRight
import Mathlib.Order.Interval.Set.Defs

/-!
# AutoInstrumentation.Lib.Unwinding

Code with guarded regions: how control moves through it, and which handlers are called on
the way.

An exception is dispatched in two passes. The first one goes over the guards in their order,
runs the filters, and finds who catches; the second one calls the handlers of the guards in
between. A `leave` calls the handlers of the regions that it leaves. What a condition
decides is left open, and every instruction may throw, so that a program has all runs that
its code can have.

The theorem is about a guard around the whole program, the last one of its table: in a run
that ends, its handler has been called just once.
-/

namespace AutoInstrumentation.Lib.Unwinding

/-! ### Programs -/

/-- What an instruction does to the control. -/
inductive Flow
  | next
  | branch (q : ℕ)
  /-- to `q`, or to the next instruction -/
  | either (q : ℕ)
  | leave (q : ℕ)
  | ret
  | throw
  | endfinally
  | endfilter
  /-- the frame is given up, and nothing is called -/
  | jump
  deriving Repr, DecidableEq

/-- When a handler is called. -/
inductive Kind
  /-- for exceptions of a class -/
  | caught
  /-- for exceptions that a filter accepts -/
  | filtered
  /-- on every way out -/
  | always
  /-- on the way out of an exception -/
  | fault
  deriving Repr, DecidableEq

structure Guard where
  kind : Kind
  regions : Clause ℕ
  deriving Repr, DecidableEq

/-- What the instructions at the places do, and the guards, the inner ones first. -/
structure Program where
  flow : ℕ → Option Flow
  guards : List Guard

/-! ### States -/

/-- Where the control goes when all handlers have been called. -/
inductive Goal
  | goto (q : ℕ)
  /-- out of the program, with an exception -/
  | exit
  /-- out of a filter, whose exceptions count as a rejection -/
  | reject
  deriving Repr, DecidableEq

/-- What is underneath the code that is running. -/
inductive Frame
  /-- the code is a handler; the handlers that are called next, and the goal -/
  | handler (region : Region ℕ) (rest : List (Region ℕ)) (goal : Goal)
  /-- the code is a filter; the search that asks it -/
  | filter (region : Region ℕ) (origin : ℕ) (before : List Guard) (guard : Guard)
      (behind : List Guard)
  deriving Repr, DecidableEq

inductive State
  | running (p : ℕ) (frames : List Frame)
  /-- the first pass, for an exception of `origin`; the guards that it has behind it and
  those that it has before it -/
  | searching (origin : ℕ) (before behind : List Guard) (frames : List Frame)
  | returned
  | threw
  | jumped
  deriving Repr, DecidableEq

/-- The program has been left. -/
def State.Ended : State → Prop
  | running _ _ => False
  | searching _ _ _ _ => False
  | _ => True

/-! ### Handlers -/

instance (r : Region ℕ) (a : ℕ) : Decidable (r.Contains a) := inferInstanceAs (Decidable (_ ∧ _))

namespace Frame

def region : Frame → Region ℕ
  | handler region _ _ => region
  | filter region _ _ _ _ => region

def isFilter : Frame → Bool
  | handler _ _ _ => false
  | filter _ _ _ _ _ => true

end Frame

/-- The frames without those that `q` is not in. -/
def abandon (q : ℕ) (frames : List Frame) : List Frame :=
  frames.dropWhile fun f => !decide (f.region.Contains q)

/-- The frames from the innermost filter on. -/
def suspended (frames : List Frame) : List Frame := frames.dropWhile fun f => !f.isFilter

/-- The region of the innermost filter. -/
def scope (frames : List Frame) : Option (Region ℕ) := (suspended frames).head?.map Frame.region

/-- A guard that is asked about exceptions of `origin`: in a filter only its own guards are. -/
def Guard.Protects (frames : List Frame) (origin : ℕ) (g : Guard) : Prop :=
  g.regions.tryRange.Contains origin
    ∧ ((scope frames).all fun r => decide (g.regions.tryRange.Inside r)) = true

instance (frames : List Frame) (origin : ℕ) (g : Guard) : Decidable (g.Protects frames origin) :=
  inferInstanceAs (Decidable (_ ∧ _))

/-- The handlers that a jump out of their regions calls. -/
def crossed (p q : ℕ) (guards : List Guard) : List (Region ℕ) :=
  (guards.filter fun g => g.kind = .always ∧ g.regions.tryRange.Contains p
    ∧ ¬g.regions.tryRange.Contains q).map (·.regions.handler)

/-- The handlers that an exception of `origin` calls on its way past the guards. -/
def unwound (frames : List Frame) (origin : ℕ) (guards : List Guard) : List (Region ℕ) :=
  (guards.filter fun g => (g.kind = .always ∨ g.kind = .fault)
    ∧ g.Protects frames origin).map (·.regions.handler)

/-- The goal is reached. -/
def arrive : Goal → List Frame → Option State
  | .goto q, frames => some (.running q frames)
  | .exit, _ => some .threw
  | .reject, .filter _ origin before guard behind :: frames =>
      some (.searching origin (before ++ [guard]) behind frames)
  | .reject, _ => none

/-- The next handler is called, or the goal is reached. -/
def proceed : List (Region ℕ) → Goal → List Frame → Option State
  | [], goal, frames => arrive goal frames
  | h :: hs, goal, frames => some (.running h.lo (.handler h hs goal :: frames))

/-! ### Steps -/

/-- A step of a program, with the handler that it calls. -/
inductive Step (P : Program) : State → Option (Region ℕ) → State → Prop
  | next {p : ℕ} {frames : List Frame} :
      P.flow p = some .next → Step P (.running p frames) none (.running (p + 1) frames)
  | branch {p q : ℕ} {frames : List Frame} :
      P.flow p = some (.branch q) → Step P (.running p frames) none (.running q frames)
  | eitherTarget {p q : ℕ} {frames : List Frame} :
      P.flow p = some (.either q) → Step P (.running p frames) none (.running q frames)
  | eitherNext {p q : ℕ} {frames : List Frame} :
      P.flow p = some (.either q) → Step P (.running p frames) none (.running (p + 1) frames)
  | leave {p q : ℕ} {frames : List Frame} {t : State} :
      P.flow p = some (.leave q) →
      proceed (crossed p q P.guards) (.goto q) (abandon q frames) = some t →
      Step P (.running p frames) (crossed p q P.guards).head? t
  | ret {p : ℕ} {frames : List Frame} :
      P.flow p = some .ret → Step P (.running p frames) none .returned
  | jump {p : ℕ} {frames : List Frame} :
      P.flow p = some .jump → Step P (.running p frames) none .jumped
  /-- any instruction may throw -/
  | throw {p : ℕ} {f : Flow} {frames : List Frame} :
      P.flow p = some f → Step P (.running p frames) none (.searching p [] P.guards frames)
  | endfinally {p : ℕ} {h : Region ℕ} {hs : List (Region ℕ)} {goal : Goal} {frames : List Frame}
      {t : State} :
      P.flow p = some .endfinally → proceed hs goal frames = some t →
      Step P (.running p (.handler h hs goal :: frames)) hs.head? t
  | accept {p origin : ℕ} {r : Region ℕ} {before behind : List Guard} {g : Guard}
      {frames : List Frame} {t : State} :
      P.flow p = some .endfilter →
      proceed (unwound frames origin before) (.goto g.regions.handler.lo)
        (abandon g.regions.handler.lo frames) = some t →
      Step P (.running p (.filter r origin before g behind :: frames))
        (unwound frames origin before).head? t
  | refuse {p origin : ℕ} {r : Region ℕ} {before behind : List Guard} {g : Guard}
      {frames : List Frame} :
      P.flow p = some .endfilter →
      Step P (.running p (.filter r origin before g behind :: frames)) none
        (.searching origin (before ++ [g]) behind frames)
  | skip {origin : ℕ} {before behind : List Guard} {g : Guard} {frames : List Frame} :
      ¬(g.kind = .filtered ∧ g.Protects frames origin) →
      Step P (.searching origin before (g :: behind) frames) none
        (.searching origin (before ++ [g]) behind frames)
  | caught {origin : ℕ} {before behind : List Guard} {g : Guard} {frames : List Frame} {t : State} :
      g.kind = .caught → g.Protects frames origin →
      proceed (unwound frames origin before) (.goto g.regions.handler.lo)
        (abandon g.regions.handler.lo frames) = some t →
      Step P (.searching origin before (g :: behind) frames)
        (unwound frames origin before).head? t
  | filtered {origin : ℕ} {r : Region ℕ} {before behind : List Guard} {g : Guard}
      {frames : List Frame} :
      g.kind = .filtered → g.Protects frames origin → g.regions.filter = some r →
      Step P (.searching origin before (g :: behind) frames) none
        (.running r.lo (.filter r origin before g behind :: frames))
  | uncaught {origin : ℕ} {before : List Guard} {frames : List Frame} {t : State} :
      proceed (unwound frames origin before) (if (scope frames).isSome then .reject else .exit)
        (suspended frames) = some t →
      Step P (.searching origin before [] frames) (unwound frames origin before).head? t

/-- The runs of a program from its first instruction. -/
def Program.system (P : Program) : System State (Option (Region ℕ)) where
  init := (· = .running 0 [])
  step := Step P

/-- The instruction that a step has done; one that throws has not been done. -/
def completed : State → State → Option ℕ
  | .running _ _, .searching _ [] _ _ => none
  | .running p _, _ => some p
  | _, _ => none

/-- The runs of a program, with the instructions that are done and the handlers that are
called. -/
def Program.traced (P : Program) : System State (Option ℕ × Option (Region ℕ)) where
  init := (· = .running 0 [])
  step s a t := Step P s a.2 t ∧ a.1 = completed s t

end AutoInstrumentation.Lib.Unwinding
