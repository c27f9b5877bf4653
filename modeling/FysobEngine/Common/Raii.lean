import FysobEngine.Foundation.Runs

/-!
# Scope guards

`raii` and `raii_var` call a release function in their destructors, unless they
were told otherwise by `commit(false)` or were moved from. A release function is
named by the number of the construction that it was given to.
-/

namespace FysobEngine.Common

/-- What a destructor does. Destructors are `noexcept`, so that the exception of an
empty `std::function` ends the program. -/
inductive Destruction (τ : Type) where
  | nothing
  | releases (function : Nat) (argument : τ)
  | terminates
  deriving DecidableEq, Repr

/-- `raii`. -/
structure Raii where
  release : Nat
  commit : Bool
  deriving DecidableEq, Repr

namespace Raii

/-- The constructor, which then calls `acquire`. -/
def construct (release : Nat) (defaultCom : Bool) : Raii where
  release := release
  commit := defaultCom

/-- The move constructor, with what it leaves in `rv`. Inside it `rv` is an lvalue,
so that `release_` is copied. -/
def moveConstruct (rv : Raii) : Raii × Raii :=
  ({ release := rv.release, commit := rv.commit }, { rv with commit := false })

/-- `commit`. -/
def setCommit (guard : Raii) (c : Bool) : Raii := { guard with commit := c }

/-- The destructor. -/
def destroy (guard : Raii) : Destruction Unit :=
  if guard.commit then .releases guard.release () else .nothing

end Raii

/-- `raii_var`. An empty `release_` is `none`. -/
structure RaiiVar (τ : Type) where
  commit : Bool
  resource : τ
  release : Option Nat
  deriving DecidableEq, Repr

/-- What `std::move` leaves behind in a resource, and whether a `std::function` that
was moved from is still there. The standard leaves both open. -/
structure Moved (τ : Type) where
  resource : τ → τ
  release : Bool

namespace RaiiVar

variable {τ : Type}

/-- The constructor. -/
def construct (acquire : τ) (release : Nat) : RaiiVar τ where
  commit := true
  resource := acquire
  release := some release

/-- The move constructor, with what it leaves in `rv`. It does not name `commit_`, so
that the new guard starts with the initializer of the class. -/
def moveConstruct (moved : Moved τ) (rv : RaiiVar τ) : RaiiVar τ × RaiiVar τ :=
  ({ commit := true, resource := rv.resource, release := rv.release },
    { commit := false
      resource := moved.resource rv.resource
      release := if moved.release then rv.release else none })

/-- `commit`. -/
def setCommit (guard : RaiiVar τ) (c : Bool) : RaiiVar τ := { guard with commit := c }

/-- `get`, and `operator*` and `operator->`, which call it or return the same. -/
def get (guard : RaiiVar τ) : τ := guard.resource

/-- The destructor. -/
def destroy (guard : RaiiVar τ) : Destruction τ :=
  if guard.commit then
    match guard.release with
    | some release => .releases release guard.get
    | none => .terminates
  else .nothing

end RaiiVar

/-! ## Programs that use guards -/

/-- The functions of a class of guards. -/
structure ScopeGuard (γ τ : Type) where
  /-- The commit state of a new guard, given `default_com`. -/
  initial : Bool → Bool
  construct : Nat → Bool → γ
  moveConstruct : γ → γ × γ
  setCommit : γ → Bool → γ
  destroy : γ → Destruction τ

def Raii.scopeGuard : ScopeGuard Raii Unit where
  initial defaultCom := defaultCom
  construct := construct
  moveConstruct := moveConstruct
  setCommit := setCommit
  destroy := destroy

/-- There is no `default_com`. The construction number `n` acquires `acquire n`. -/
def RaiiVar.scopeGuard {τ : Type} (moved : Moved τ) (acquire : Nat → τ) :
    ScopeGuard (RaiiVar τ) τ where
  initial _ := true
  construct n _ := construct (acquire n) n
  moveConstruct := moveConstruct moved
  setCommit := setCommit
  destroy := destroy

/-- What a program does to its guards. Objects are numbered in the order in which
they come to be, by a construction or by a move. -/
inductive GuardAction where
  | construct (defaultCom : Bool)
  | move (object : Nat)
  | commit (object : Nat) (c : Bool)
  | destroy (object : Nat)
  deriving DecidableEq, Repr

/-- The guards of a program, `none` where one is destroyed, and the calls of release
functions so far. -/
structure Guards (γ τ : Type) where
  objects : List (Option γ)
  acquired : Nat
  released : List (Nat × τ)

namespace Guards

variable {γ τ : Type}

def create : Guards γ τ where
  objects := []
  acquired := 0
  released := []

/-- One action, when its object is there and the program goes on. -/
def step (guard : ScopeGuard γ τ) (s : Guards γ τ) : GuardAction → Option (Guards γ τ)
  | .construct defaultCom =>
      some { s with
        objects := s.objects ++ [some (guard.construct s.acquired defaultCom)]
        acquired := s.acquired + 1 }
  | .move object =>
      match s.objects[object]? with
      | some (some rv) =>
          let (new, left) := guard.moveConstruct rv
          some { s with objects := s.objects.set object (some left) ++ [some new] }
      | _ => none
  | .commit object c =>
      match s.objects[object]? with
      | some (some g) =>
          some { s with objects := s.objects.set object (some (guard.setCommit g c)) }
      | _ => none
  | .destroy object =>
      match s.objects[object]? with
      | some (some g) =>
          match guard.destroy g with
          | .nothing => some { s with objects := s.objects.set object none }
          | .releases function argument =>
              some { s with
                objects := s.objects.set object none
                released := s.released ++ [(function, argument)] }
          | .terminates => none
      | _ => none

/-- The release functions that have run. -/
def functions (s : Guards γ τ) : List Nat := s.released.map Prod.fst

end Guards

end FysobEngine.Common
