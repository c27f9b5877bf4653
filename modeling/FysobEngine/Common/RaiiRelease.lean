import FysobEngine.Common.Raii
import Mathlib.Data.List.Forall2
import Mathlib.Data.List.Range

/-!
# Who releases a resource

A ledger says who owns each resource: a construction acquires one, a move hands
it on together with the commit state, and the last owner settles it when it is
destroyed. The guards of the code are compared with the ledger.
-/

namespace FysobEngine.Common

open Foundation.Runs

/-! ## Owners -/

/-- What an object is to the resources. -/
structure Owner where
  /-- The construction at the beginning of the moves that led to the object. -/
  root : Nat
  /-- Whether the object owns the resource of that construction. -/
  owns : Bool
  /-- The commit state carried along the moves. -/
  state : Bool
  /-- The state was false when it was carried here, and `commit` was not called since. -/
  dropped : Bool
  moved : Bool
  forgotten : dropped = true → state = false

namespace Owner

def construct (root : Nat) (state : Bool) : Owner where
  root := root
  owns := true
  state := state
  dropped := false
  moved := false
  forgotten dropped := absurd dropped Bool.false_ne_true

/-- The object that is made by a move. -/
def taken (o : Owner) : Owner where
  root := o.root
  owns := o.owns
  state := o.state
  dropped := !o.state
  moved := false
  forgotten none := by simpa using none

/-- The object that was moved from. -/
def left (o : Owner) : Owner where
  root := o.root
  owns := false
  state := false
  dropped := false
  moved := true
  forgotten dropped := absurd dropped Bool.false_ne_true

def commit (o : Owner) (c : Bool) : Owner where
  root := o.root
  owns := o.owns
  state := c
  dropped := false
  moved := o.moved
  forgotten dropped := absurd dropped Bool.false_ne_true

/-- What the end of the object settles: its resource, and the state it had last. -/
def settles (o : Owner) : List (Nat × Bool) := if o.owns then [(o.root, o.state)] else []

/-- An object with a true state owns its resource, and in a class whose moves forget
the state `commit` was called on every object that was given a false one. -/
def Settled (forgets : Bool) (o : Owner) : Prop :=
  (o.state = true → o.owns = true) ∧ (forgets = true → o.dropped = false)

instance (forgets : Bool) (o : Owner) : Decidable (o.Settled forgets) := by
  unfold Settled
  infer_instance

/-- The commit flag of the guard. -/
def flag (forgets : Bool) (o : Owner) : Bool := o.state || forgets && o.dropped

/-- The resources that an object owns. -/
def resources : Option Owner → List Nat
  | some o => if o.owns then [o.root] else []
  | none => []

end Owner

/-! ## The ledger -/

structure Ledger where
  objects : List (Option Owner)
  acquired : Nat
  settled : List (Nat × Bool)

namespace Ledger

def create : Ledger where
  objects := []
  acquired := 0
  settled := []

/-- One action. `commit` is called on an object before it is moved. -/
def step (initial : Bool → Bool) (l : Ledger) : GuardAction → Option Ledger
  | .construct defaultCom =>
      some { l with
        objects := l.objects ++ [some (Owner.construct l.acquired (initial defaultCom))]
        acquired := l.acquired + 1 }
  | .move object =>
      match l.objects[object]? with
      | some (some o) =>
          some { l with objects := l.objects.set object (some o.left) ++ [some o.taken] }
      | _ => none
  | .commit object c =>
      match l.objects[object]? with
      | some (some o) =>
          if o.moved then none
          else some { l with objects := l.objects.set object (some (o.commit c)) }
      | _ => none
  | .destroy object =>
      match l.objects[object]? with
      | some (some o) =>
          some { l with
            objects := l.objects.set object none
            settled := l.settled ++ o.settles }
      | _ => none

/-- The step relation. -/
def Steps (initial : Bool → Bool) (l : Ledger) (action : GuardAction) (l' : Ledger) : Prop :=
  l.step initial action = some l'

/-- Every object is destroyed. -/
def Complete (l : Ledger) : Prop := ∀ object ∈ l.objects, object = none

instance (l : Ledger) : Decidable l.Complete := by
  unfold Complete
  have (object : Option Owner) : Decidable (object = none) :=
    decidable_of_iff (object.isNone = true) Option.isNone_iff_eq_none
  infer_instance

/-- The action leaves every guard that it destroys settled. -/
def SettledAt (forgets : Bool) (l : Ledger) : GuardAction → Prop
  | .destroy object => ∀ o, l.objects[object]? = some (some o) → o.Settled forgets
  | .construct _ | .move _ | .commit _ _ => True

/-- The owned resources, in the order of the objects. -/
def owned (l : Ledger) : List Nat := l.objects.flatMap Owner.resources

/-- The settled resources. -/
def closed (l : Ledger) : List Nat := l.settled.map Prod.fst

/-- Each resource has one owner, or has been settled once. -/
def OneOwner (l : Ledger) : Prop := (l.owned ++ l.closed).Perm (List.range l.acquired)

variable {initial : Bool → Bool} {l l' : Ledger}

theorem create_oneOwner : create.OneOwner := List.Perm.refl _

/-- An object changes, and with it what it owns. -/
theorem owned_set {object : Nat} {before : Option Owner} (found : l.objects[object]? = some before)
    (now : Option Owner) :
    ∃ front back, l.owned = front ++ Owner.resources before ++ back ∧
      (l.objects.set object now).flatMap Owner.resources =
        front ++ Owner.resources now ++ back := by
  obtain ⟨inside, same⟩ := List.getElem?_eq_some_iff.mp found
  have split : l.objects = l.objects.take object ++ before :: l.objects.drop (object + 1) := by
    rw [← same, ← List.drop_eq_getElem_cons inside, List.take_append_drop]
  have whole := congrArg (List.flatMap Owner.resources) split
  refine ⟨(l.objects.take object).flatMap Owner.resources,
    (l.objects.drop (object + 1)).flatMap Owner.resources, ?_, ?_⟩
  · rw [owned, whole, List.flatMap_append, List.flatMap_cons, List.append_assoc]
  · rw [List.set_eq_take_append_cons_drop, if_pos inside, List.flatMap_append,
      List.flatMap_cons, List.append_assoc]

theorem construct_resources (root : Nat) (state : Bool) :
    Owner.resources (some (Owner.construct root state)) = [root] := rfl

theorem left_resources (o : Owner) : Owner.resources (some o.left) = [] := rfl

theorem taken_resources (o : Owner) :
    Owner.resources (some o.taken) = Owner.resources (some o) := rfl

theorem commit_resources (o : Owner) (c : Bool) :
    Owner.resources (some (o.commit c)) = Owner.resources (some o) := rfl

theorem settles_resources (o : Owner) : o.settles.map Prod.fst = Owner.resources (some o) := by
  rw [Owner.settles, Owner.resources]
  split
  · rfl
  · rfl

theorem step_move {object : Nat} (step : l.step initial (.move object) = some l') :
    ∃ o, l.objects[object]? = some (some o) ∧
      l' = { l with objects := l.objects.set object (some o.left) ++ [some o.taken] } := by
  simp only [Ledger.step] at step
  split at step
  · next o found =>
      cases step
      exact ⟨o, found, rfl⟩
  · cases step

theorem step_commit {object : Nat} {c : Bool} (step : l.step initial (.commit object c) = some l') :
    ∃ o, l.objects[object]? = some (some o) ∧ o.moved = false ∧
      l' = { l with objects := l.objects.set object (some (o.commit c)) } := by
  simp only [Ledger.step] at step
  split at step
  · next o found =>
      split at step
      · cases step
      · next still =>
          cases step
          exact ⟨o, found, Bool.eq_false_iff.mpr still, rfl⟩
  · cases step

theorem step_destroy {object : Nat} (step : l.step initial (.destroy object) = some l') :
    ∃ o, l.objects[object]? = some (some o) ∧
      l' = { l with
        objects := l.objects.set object none
        settled := l.settled ++ o.settles } := by
  simp only [Ledger.step] at step
  split at step
  · next o found =>
      cases step
      exact ⟨o, found, rfl⟩
  · cases step

theorem step_oneOwner (one : l.OneOwner) {action : GuardAction}
    (step : l.step initial action = some l') : l'.OneOwner := by
  unfold OneOwner at one ⊢
  cases action with
  | construct defaultCom =>
      cases step
      rw [owned, List.flatMap_append, List.flatMap_singleton, construct_resources,
        List.range_succ, List.append_assoc]
      exact (List.perm_middle.trans (one.cons _)).trans (List.perm_append_singleton _ _).symm
  | move object =>
      obtain ⟨o, found, rfl⟩ := step_move step
      obtain ⟨front, back, before, after⟩ := owned_set found (some o.left)
      rw [before] at one
      rw [owned, List.flatMap_append, List.flatMap_singleton, after, left_resources,
        taken_resources, List.append_nil]
      simp only [List.append_assoc] at one ⊢
      exact ((List.perm_append_comm_assoc ..).append_left front).trans one
  | commit object c =>
      obtain ⟨o, found, -, rfl⟩ := step_commit step
      obtain ⟨front, back, before, after⟩ := owned_set found (some (o.commit c))
      rw [before] at one
      rw [owned, after, commit_resources]
      exact one
  | destroy object =>
      obtain ⟨o, found, rfl⟩ := step_destroy step
      obtain ⟨front, back, before, after⟩ := owned_set found none
      rw [before] at one
      rw [owned, after, closed, List.map_append, settles_resources]
      have behind : ((back ++ l.closed) ++ Owner.resources (some o)).Perm
          (Owner.resources (some o) ++ (back ++ l.closed)) := List.perm_append_comm
      simp only [List.append_assoc] at one behind ⊢
      exact (behind.append_left front).trans one

/-- In the end every resource has been settled once. -/
theorem complete_closed (one : l.OneOwner) (complete : l.Complete) :
    l.closed.Perm (List.range l.acquired) := by
  have none : l.owned = [] := by
    rw [owned, List.flatMap_eq_nil_iff]
    intro object member
    rw [complete object member]
    rfl
  rw [OneOwner, none, List.nil_append] at one
  exact one

theorem last_oneOwner {actions : List GuardAction}
    (run : last (Ledger.step initial) create actions = some l) : l.OneOwner :=
  (reached_last run).invariant_all (fun _ _ _ one _ step => step_oneOwner one step)
    create_oneOwner

end Ledger

/-! ## The guards follow the ledger -/

/-- What the destructor of an owner's guard does. -/
inductive Ends {τ : Type} (forgets : Bool) (o : Owner) : Destruction τ → Prop where
  | nothing : o.flag forgets = false → Ends forgets o .nothing
  | releases (argument : τ) : o.flag forgets = true → Ends forgets o (.releases o.root argument)
  | terminates : o.flag forgets = true → o.owns = false → Ends forgets o .terminates

/-- Every function of a class keeps its guards related to the owners. -/
structure Follows {γ τ : Type} (guard : ScopeGuard γ τ) (forgets : Bool)
    (R : Owner → γ → Prop) : Prop where
  construct : ∀ n c, R (Owner.construct n (guard.initial c)) (guard.construct n c)
  taken : ∀ o g, R o g → R o.taken (guard.moveConstruct g).1
  left : ∀ o g, R o g → R o.left (guard.moveConstruct g).2
  commit : ∀ o g c, R o g → R (o.commit c) (guard.setCommit g c)
  destroy : ∀ o g, R o g → Ends forgets o (guard.destroy g)

/-- The flag of a `raii` is the state carried along the moves. -/
def Raii.Tracks (o : Owner) (guard : Raii) : Prop :=
  guard.commit = o.flag false ∧ guard.release = o.root

theorem Raii.follows : Follows Raii.scopeGuard false Raii.Tracks where
  construct n c := by
    refine ⟨?_, rfl⟩
    cases c with
    | false => rfl
    | true => rfl
  taken o g tracks := tracks
  left o g tracks := ⟨rfl, tracks.2⟩
  commit o g c tracks := by
    refine ⟨?_, tracks.2⟩
    cases c with
    | false => rfl
    | true => rfl
  destroy o g tracks := by
    obtain ⟨commit, release⟩ := tracks
    change Ends false o (Raii.destroy g)
    rw [Raii.destroy, commit, release]
    cases flag : o.flag false with
    | false => exact .nothing flag
    | true => exact .releases () flag

/-- The flag of a `raii_var` is true also where a false state was carried to it. -/
def RaiiVar.Tracks {τ : Type} (o : Owner) (guard : RaiiVar τ) : Prop :=
  guard.commit = o.flag true ∧
    (guard.release = some o.root ∨ o.owns = false ∧ guard.release = none)

theorem RaiiVar.follows {τ : Type} (moved : Moved τ) (acquire : Nat → τ) :
    Follows (RaiiVar.scopeGuard moved acquire) true RaiiVar.Tracks where
  construct n c := ⟨rfl, .inl rfl⟩
  taken o g tracks := by
    refine ⟨?_, tracks.2⟩
    change true = (o.state || !o.state)
    rw [Bool.or_not_self]
  left o g tracks := by
    refine ⟨rfl, ?_⟩
    change (if moved.release then g.release else none) = _ ∨ _ ∧
      (if moved.release then g.release else none) = none
    split
    · rcases tracks.2 with still | ⟨-, none⟩
      · exact .inl still
      · exact .inr ⟨rfl, none⟩
    · exact .inr ⟨rfl, rfl⟩
  commit o g c tracks := by
    refine ⟨?_, tracks.2⟩
    cases c with
    | false => rfl
    | true => rfl
  destroy o g tracks := by
    obtain ⟨commit, release⟩ := tracks
    change Ends true o (RaiiVar.destroy g)
    rw [RaiiVar.destroy, commit]
    cases flag : o.flag true with
    | false => exact .nothing flag
    | true =>
        rcases release with still | ⟨empty, none⟩
        · rw [still]
          exact .releases g.get flag
        · rw [none]
          exact .terminates flag empty

section Simulation

variable {γ τ : Type} {guard : ScopeGuard γ τ} {forgets : Bool} {R : Owner → γ → Prop}

/-- The objects of the ledger and of the program. -/
structure Alike (R : Owner → γ → Prop) (l : Ledger) (s : Guards γ τ) : Prop where
  objects : List.Forall₂ (Option.Rel R) l.objects s.objects
  acquired : s.acquired = l.acquired

theorem forall₂_getElem? {α β : Type} {S : α → β → Prop} {xs : List α} {ys : List β}
    (alike : List.Forall₂ S xs ys) {i : Nat} {x : α} (found : xs[i]? = some x) :
    ∃ y, ys[i]? = some y ∧ S x y := by
  induction alike generalizing i with
  | nil => cases found
  | cons related _ ih =>
      cases i with
      | zero =>
          cases found
          exact ⟨_, rfl, related⟩
      | succ i => exact ih found

theorem forall₂_set {α β : Type} {S : α → β → Prop} {xs : List α} {ys : List β}
    (alike : List.Forall₂ S xs ys) {x : α} {y : β} (related : S x y) (i : Nat) :
    List.Forall₂ S (xs.set i x) (ys.set i y) := by
  induction alike generalizing i with
  | nil => exact .nil
  | cons first rest ih =>
      cases i with
      | zero => exact .cons related rest
      | succ i => exact .cons first (ih i)

variable {l l' : Ledger} {s s' : Guards γ τ}

theorem Alike.object (alike : Alike R l s) {object : Nat} {o : Owner}
    (found : l.objects[object]? = some (some o)) :
    ∃ g, s.objects[object]? = some (some g) ∧ R o g := by
  obtain ⟨there, same, related⟩ := forall₂_getElem? alike.objects found
  cases related with
  | some tracks => exact ⟨_, same, tracks⟩

/-- The release functions that a step calls, against the resources that it settles. -/
structure Advances (R : Owner → γ → Prop) (settles : Prop) (l l' : Ledger)
    (s s' : Guards γ τ) : Prop where
  alike : Alike R l' s'
  most : ∀ n, s.functions.count n + l'.settled.count (n, true) ≤
    s'.functions.count n + l.settled.count (n, true)
  even : settles ↔ ∀ n, s.functions.count n + l'.settled.count (n, true) =
    s'.functions.count n + l.settled.count (n, true)

/-- A step that neither settles nor releases anything. -/
theorem Alike.advances (alike : Alike R l' s') (settled : l'.settled = l.settled)
    (released : s'.released = s.released) : Advances R True l l' s s' where
  alike := alike
  most n := by rw [settled, Guards.functions, Guards.functions, released]
  even := by
    refine iff_of_true trivial fun n => ?_
    rw [settled, Guards.functions, Guards.functions, released]

theorem Advances.refl (alike : Alike R l s) : Advances R True l l s s :=
  alike.advances rfl rfl

/-- What the first part of a run owes is never paid back by the second. -/
theorem Advances.trans {P Q : Prop} {middle : Ledger} {between : Guards γ τ}
    (first : Advances R P l middle s between) (second : Advances R Q middle l' between s') :
    Advances R (P ∧ Q) l l' s s' where
  alike := second.alike
  most n := by
    have before := first.most n
    have after := second.most n
    omega
  even := by
    rw [first.even, second.even]
    constructor
    · rintro ⟨before, after⟩ n
      have before := before n
      have after := after n
      omega
    · intro whole
      constructor
      · intro n
        have whole := whole n
        have before := first.most n
        have after := second.most n
        omega
      · intro n
        have whole := whole n
        have before := first.most n
        have after := second.most n
        omega

/-- A destructor that does nothing belongs to an object with a false state. -/
theorem Owner.settled_of_flag_false {o : Owner} (flag : o.flag forgets = false) :
    o.state = false ∧ o.Settled forgets := by
  rw [Owner.flag, Bool.or_eq_false_iff, Bool.and_eq_false_iff] at flag
  obtain ⟨state, remembered⟩ := flag
  refine ⟨state, fun held => ?_, fun forgetting => ?_⟩
  · rw [state] at held
    cases held
  · rcases remembered with never | kept
    · rw [never] at forgetting
      cases forgetting
    · exact kept

theorem Owner.settled_iff_of_flag {o : Owner} (flag : o.flag forgets = true) :
    o.Settled forgets ↔ o.owns = true ∧ o.state = true := by
  rw [Owner.flag, Bool.or_eq_true_iff, Bool.and_eq_true_iff] at flag
  constructor
  · rintro ⟨owns, remembered⟩
    rcases flag with state | ⟨forgetting, dropped⟩
    · exact ⟨owns state, state⟩
    · rw [remembered forgetting] at dropped
      cases dropped
  · rintro ⟨owns, state⟩
    refine ⟨fun _ => owns, fun _ => ?_⟩
    cases dropped : o.dropped with
    | false => rfl
    | true =>
        rw [o.forgotten dropped] at state
        cases state

/-- How often the end of an object has to release a resource. -/
theorem Owner.settles_count (o : Owner) (n : Nat) :
    o.settles.count (n, true) =
      if o.owns = true ∧ o.state = true then [o.root].count n else 0 := by
  rw [Owner.settles]
  cases o.owns with
  | false => rfl
  | true =>
      cases o.state with
      | false => simp
      | true => simp [List.count_singleton]

/-- A destructor that does nothing. -/
theorem Alike.keeps {o : Owner} (alike : Alike R l' s') (flag : o.flag forgets = false)
    (settled : l'.settled = l.settled ++ o.settles) (released : s'.functions = s.functions) :
    Advances R (o.Settled forgets) l l' s s' := by
  obtain ⟨state, settles⟩ := Owner.settled_of_flag_false flag
  have owed (n : Nat) : l'.settled.count (n, true) = l.settled.count (n, true) := by
    simp [settled, List.count_append, Owner.settles_count, state]
  refine ⟨alike, fun n => ?_, iff_of_true settles fun n => ?_⟩
  · rw [owed, released]
  · rw [owed, released]

/-- A destructor that releases. -/
theorem Alike.releases {o : Owner} (alike : Alike R l' s') (flag : o.flag forgets = true)
    (settled : l'.settled = l.settled ++ o.settles)
    (released : s'.functions = s.functions ++ [o.root]) :
    Advances R (o.Settled forgets) l l' s s' := by
  have owed (n : Nat) : l'.settled.count (n, true) = l.settled.count (n, true) +
      if o.owns = true ∧ o.state = true then [o.root].count n else 0 := by
    rw [settled, List.count_append, Owner.settles_count]
  have paid (n : Nat) : s'.functions.count n = s.functions.count n + [o.root].count n := by
    rw [released, List.count_append]
  refine ⟨alike, fun n => ?_, ?_⟩
  · rw [owed, paid]
    split
    · omega
    · omega
  · rw [Owner.settled_iff_of_flag flag]
    constructor
    · intro due n
      rw [owed, paid, if_pos due]
      omega
    · intro even
      by_contra due
      have once := even o.root
      rw [owed, paid, if_neg due, List.count_singleton_self] at once
      omega

/-- One action on the guards, against the same action on the ledger. A guard may also
end the program, where it was not settled. -/
def Matches (guard : ScopeGuard γ τ) (forgets : Bool) (R : Owner → γ → Prop) (l l' : Ledger)
    (s : Guards γ τ) (action : GuardAction) : Prop :=
  (∃ s', s.step guard action = some s' ∧ Advances R (l.SettledAt forgets action) l l' s s') ∨
    (s.step guard action = none ∧ ¬ l.SettledAt forgets action)

theorem construct_matches (follows : Follows guard forgets R) (alike : Alike R l s)
    {defaultCom : Bool} (step : l.step guard.initial (.construct defaultCom) = some l') :
    Matches guard forgets R l l' s (.construct defaultCom) := by
  cases step
  refine .inl ⟨_, rfl, Alike.advances ⟨?_, ?_⟩ rfl rfl⟩
  · rw [alike.acquired]
    exact List.rel_append alike.objects
      (.cons (.some (follows.construct l.acquired defaultCom)) .nil)
  · change s.acquired + 1 = l.acquired + 1
    rw [alike.acquired]

theorem move_matches (follows : Follows guard forgets R) (alike : Alike R l s)
    {object : Nat} (step : l.step guard.initial (.move object) = some l') :
    Matches guard forgets R l l' s (.move object) := by
  obtain ⟨o, found, rfl⟩ := Ledger.step_move step
  obtain ⟨g, there, related⟩ := alike.object found
  refine .inl ⟨{ s with
    objects := s.objects.set object (some (guard.moveConstruct g).2) ++
      [some (guard.moveConstruct g).1] }, ?_, Alike.advances ⟨?_, alike.acquired⟩ rfl rfl⟩
  · simp only [Guards.step, there]
  · exact List.rel_append
      (forall₂_set alike.objects (.some (follows.left o g related)) object)
      (.cons (.some (follows.taken o g related)) .nil)

theorem commit_matches (follows : Follows guard forgets R) (alike : Alike R l s)
    {object : Nat} {c : Bool} (step : l.step guard.initial (.commit object c) = some l') :
    Matches guard forgets R l l' s (.commit object c) := by
  obtain ⟨o, found, -, rfl⟩ := Ledger.step_commit step
  obtain ⟨g, there, related⟩ := alike.object found
  refine .inl ⟨{ s with objects := s.objects.set object (some (guard.setCommit g c)) },
    ?_, Alike.advances ⟨?_, alike.acquired⟩ rfl rfl⟩
  · simp only [Guards.step, there]
  · exact forall₂_set alike.objects (.some (follows.commit o g c related)) object

theorem destroy_matches (follows : Follows guard forgets R) (alike : Alike R l s)
    {object : Nat} (step : l.step guard.initial (.destroy object) = some l') :
    Matches guard forgets R l l' s (.destroy object) := by
  obtain ⟨o, found, rfl⟩ := Ledger.step_destroy step
  obtain ⟨g, there, related⟩ := alike.object found
  have gone := forall₂_set alike.objects (.none : Option.Rel R none none) object
  have settledAt : l.SettledAt forgets (.destroy object) ↔ o.Settled forgets := by
    simp [Ledger.SettledAt, found]
  rw [Matches, settledAt]
  have ends := follows.destroy o g related
  generalize destroyed : guard.destroy g = destruction at ends
  cases ends with
  | nothing flag =>
      refine .inl ⟨{ s with objects := s.objects.set object none }, ?_,
        Alike.keeps ⟨gone, alike.acquired⟩ flag rfl rfl⟩
      simp only [Guards.step, there, destroyed]
  | releases argument flag =>
      refine .inl ⟨{ s with
          objects := s.objects.set object none
          released := s.released ++ [(o.root, argument)] }, ?_,
        Alike.releases ⟨gone, alike.acquired⟩ flag rfl List.map_append⟩
      simp only [Guards.step, there, destroyed]
  | terminates flag lost =>
      -- The guard owns nothing, and the function that it calls is empty.
      refine .inr ⟨?_, fun settled => ?_⟩
      · simp only [Guards.step, there, destroyed]
      · have owns := ((Owner.settled_iff_of_flag flag).mp settled).1
        rw [lost] at owns
        cases owns

theorem step_matches (follows : Follows guard forgets R) (alike : Alike R l s)
    {action : GuardAction} (step : l.step guard.initial action = some l') :
    Matches guard forgets R l l' s action := by
  cases action with
  | construct defaultCom => exact construct_matches follows alike step
  | move object => exact move_matches follows alike step
  | commit object c => exact commit_matches follows alike step
  | destroy object => exact destroy_matches follows alike step

/-- The guards meet the condition of the ledger in every state of a run. -/
def SettledAlong (initial : Bool → Bool) (forgets : Bool) (l : Ledger)
    (actions : List GuardAction) : Prop :=
  Along (fun _ _ => True) (Ledger.Steps initial) (Ledger.SettledAt forgets) l actions

theorem settledAlong_cons {initial : Bool → Bool} {action : GuardAction}
    {rest : List GuardAction} (step : l.step initial action = some l') :
    SettledAlong initial forgets l (action :: rest) ↔
      l.SettledAt forgets action ∧ SettledAlong initial forgets l' rest := by
  constructor
  · intro along
    obtain ⟨head, tail⟩ := along trivial
    exact ⟨head, tail l' step⟩
  · rintro ⟨head, tail⟩
    refine fun _ => ⟨head, fun next taken => ?_⟩
    cases step.symm.trans taken
    exact tail

theorem last_matches (follows : Follows guard forgets R) {actions : List GuardAction}
    (alike : Alike R l s) (run : last (Ledger.step guard.initial) l actions = some l') :
    (∃ s', last (Guards.step guard) s actions = some s' ∧
        Advances R (SettledAlong guard.initial forgets l actions) l l' s s') ∨
      (last (Guards.step guard) s actions = none ∧
        ¬ SettledAlong guard.initial forgets l actions) := by
  induction actions generalizing l s with
  | nil =>
      cases run
      exact .inl ⟨s, rfl, .refl alike⟩
  | cons action rest ih =>
      obtain ⟨middle, first, tail⟩ := Option.bind_eq_some_iff.mp run
      rw [settledAlong_cons first]
      rcases step_matches follows alike first with
        ⟨between, stepped, advances⟩ | ⟨stopped, unsettled⟩
      · rcases ih advances.alike tail with ⟨s', ran, behind⟩ | ⟨stopped, unsettled⟩
        · refine .inl ⟨s', ?_, advances.trans behind⟩
          rw [last, stepped]
          exact ran
        · -- The program ends in the rest of the run.
          refine .inr ⟨?_, fun both => unsettled both.2⟩
          rw [last, stepped]
          exact stopped
      · -- It ends here.
        refine .inr ⟨?_, fun both => unsettled both.1⟩
        rw [last, stopped]
        rfl

/-- Nothing has been acquired yet. -/
theorem create_alike : Alike R Ledger.create (Guards.create : Guards γ τ) where
  objects := .nil
  acquired := rfl

end Simulation

/-! ## Releases -/

/-- No release function ran twice, and those ran whose resource had an owner with a
true state in the end. -/
structure ReleasedOnce (l : Ledger) (functions : List Nat) : Prop where
  once : ∀ n, functions.count n ≤ 1
  exactly : ∀ n, n ∈ functions ↔ (n, true) ∈ l.settled

theorem Ledger.settled_count_le (l : Ledger) (n : Nat) (c : Bool) :
    l.settled.count (n, c) ≤ l.closed.count n :=
  List.count_le_count_map (f := Prod.fst) (x := (n, c))

theorem releasedOnce_iff {l : Ledger} {functions : List Nat} (closed : l.closed.Nodup) :
    ReleasedOnce l functions ↔ ∀ n, l.settled.count (n, true) = functions.count n := by
  have single (n : Nat) : l.settled.count (n, true) ≤ 1 :=
    (l.settled_count_le n true).trans (List.nodup_iff_count.mp closed n)
  constructor
  · rintro ⟨once, exactly⟩ n
    have same : 0 < functions.count n ↔ 0 < l.settled.count (n, true) := by
      rw [List.count_pos_iff, List.count_pos_iff]
      exact exactly n
    have once := once n
    have single := single n
    omega
  · intro even
    refine ⟨fun n => (even n) ▸ single n, fun n => ?_⟩
    rw [← List.count_pos_iff, ← List.count_pos_iff, even]

/-- The program runs to its end, and releases as it should. -/
def ScopeGuard.ReleasesOnce {γ τ : Type} (guard : ScopeGuard γ τ) (actions : List GuardAction)
    (l : Ledger) : Prop :=
  ∃ s, last (Guards.step guard) Guards.create actions = some s ∧ ReleasedOnce l s.functions

/-- When the program destroys all its objects, each resource is settled once, and the
guards release as they should when they are settled. -/
structure ScopeGuard.ReleasesWhenSettled {γ τ : Type} (guard : ScopeGuard γ τ)
    (forgets : Bool) (actions : List GuardAction) : Prop where
  settled : ∀ l, last (Ledger.step guard.initial) Ledger.create actions = some l →
    l.Complete → l.closed.Perm (List.range l.acquired)
  releases : ∀ l, last (Ledger.step guard.initial) Ledger.create actions = some l →
    l.Complete →
      (guard.ReleasesOnce actions l ↔ SettledAlong guard.initial forgets Ledger.create actions)

theorem Follows.releasesWhenSettled {γ τ : Type} {guard : ScopeGuard γ τ} {forgets : Bool}
    {R : Owner → γ → Prop} (follows : Follows guard forgets R) (actions : List GuardAction) :
    guard.ReleasesWhenSettled forgets actions where
  settled l run complete := Ledger.complete_closed (Ledger.last_oneOwner run) complete
  releases l run complete := by
    have closed : l.closed.Nodup :=
      (Ledger.complete_closed (Ledger.last_oneOwner run) complete).nodup_iff.mpr
        List.nodup_range
    rcases last_matches follows create_alike run with
      ⟨s, ran, advances⟩ | ⟨stopped, unsettled⟩
    · have even : SettledAlong guard.initial forgets Ledger.create actions ↔
          ∀ n, l.settled.count (n, true) = s.functions.count n := by
        simpa [Guards.create, Guards.functions, Ledger.create] using advances.even
      rw [even, ← releasedOnce_iff closed]
      constructor
      · rintro ⟨last, same, released⟩
        cases ran.symm.trans same
        exact released
      · intro released
        exact ⟨s, ran, released⟩
    · refine iff_of_false ?_ unsettled
      rintro ⟨s, ran, -⟩
      cases stopped.symm.trans ran

/-- A `raii` fails where `commit(true)` was called on an object that was made from a
moved-from one, a `raii_var` also where a false state was moved. -/
theorem scopeGuard_releasesWhenSettled {τ : Type} (moved : Moved τ) (acquire : Nat → τ)
    (actions : List GuardAction) :
    Raii.scopeGuard.ReleasesWhenSettled false actions ∧
      (RaiiVar.scopeGuard moved acquire).ReleasesWhenSettled true actions :=
  ⟨Raii.follows.releasesWhenSettled actions,
    (RaiiVar.follows moved acquire).releasesWhenSettled actions⟩

/-- A guard is told not to release, moved, and both objects are destroyed. -/
def cancelled : List GuardAction :=
  [.construct true, .commit 0 false, .move 0, .destroy 1, .destroy 0]

/-- A `raii_var` forgets that it was cancelled. -/
theorem cancelled_released :
    ¬ ∀ (moved : Moved Nat) (acquire : Nat → Nat) (actions : List GuardAction) (l : Ledger),
      last (Ledger.step (RaiiVar.scopeGuard moved acquire).initial) Ledger.create actions =
        some l → l.Complete →
      (RaiiVar.scopeGuard moved acquire).ReleasesOnce actions l := by
  intro claim
  obtain ⟨s, ran, released⟩ := claim { resource := id, release := false } id cancelled
    { objects := [none, none], acquired := 1, settled := [(0, false)] } rfl (by decide)
  cases ran
  exact absurd ((released.exactly 0).mp (by decide)) (by decide)

end FysobEngine.Common
