import ColonMachine.Output.Outlet

/-!
# Routes

Output may go to several outlets at once.  The outlets of a session stand in a list and are never
removed, so a route names the ones it uses by their positions: a single outlet, or a tee of two or
more.  Combining routes with `Route.tee` keeps all their outlets in order, so a tee of tees is a
tee of outlets.

A tee writes to its outlets in order, up to the first that does not take everything, and flushes
all of them whatever happens.
-/

namespace ColonMachine

/-- Where output goes. -/
inductive Route where
  /-- To one outlet. -/
  | single (outlet : Nat)
  /-- To each of several outlets in turn. -/
  | tee (outlets : List Nat)
  deriving Repr, DecidableEq

namespace Route

/-- The outlets of a route, in order. -/
def outlets : Route → List Nat
  | single outlet => [outlet]
  | tee outlets => outlets

/-- The route to all given outlets: none if there is none, and no tee if there is one. -/
def ofOutlets : List Nat → Option Route
  | [] => none
  | [outlet] => some (single outlet)
  | outlets => some (tee outlets)

/-- Combines routes; those that are `none` are left out. -/
def combine (routes : List (Option Route)) : Option Route :=
  ofOutlets (routes.flatMap fun route => (route.map outlets).getD [])

end Route

/-- The outlets of a session. -/
abbrev Outlets := List Outlet

namespace Outlets

/-- Hands a piece to one outlet.  Where there is none, the piece is gone. -/
def writeAt (manner : Manner) (piece : Text) (i : Nat) (all : Outlets) : Written × Outlets :=
  match all[i]? with
  | none => (⟨piece.length, none⟩, all)
  | some outlet =>
    let (written, outlet) := outlet.write manner piece
    (written, all.set i outlet)

/-- Flushes one outlet. -/
def flushAt (i : Nat) (all : Outlets) : Option Failure × Outlets :=
  match all[i]? with
  | none => (none, all)
  | some outlet =>
    let (failure, outlet) := outlet.flush
    (failure, all.set i outlet)

/-- Hands a piece, as bytes, to each of several outlets, up to the first that does not take all
of it. -/
def writeEach (piece : Text) : List Nat → Outlets → Written × Outlets
  | [], all => (⟨piece.length, none⟩, all)
  | i :: others, all =>
    match all.writeAt .bytes piece i with
    | (⟨count, some failure⟩, all) => (⟨count, some failure⟩, all)
    | (⟨count, none⟩, all) =>
      if count == piece.length then writeEach piece others all
      else (⟨count, some .shortWrite⟩, all)

/-- Flushes each of several outlets, and gives the first failure. -/
def flushEach : List Nat → Outlets → Option Failure × Outlets
  | [], all => (none, all)
  | i :: others, all =>
    let (failure, all) := all.flushAt i
    let (later, all) := flushEach others all
    (failure <|> later, all)

/-- Hands a piece to a route. -/
def write (manner : Manner) (piece : Text) (route : Route) (all : Outlets) : Written × Outlets :=
  match route with
  | .single i => all.writeAt manner piece i
  | .tee is => all.writeEach piece is

/-- Flushes a route. -/
def flush (route : Route) (all : Outlets) : Option Failure × Outlets :=
  match route with
  | .single i => all.flushAt i
  | .tee is => all.flushEach is

end Outlets

end ColonMachine
