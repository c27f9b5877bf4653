import FysobEngine.Foundation.Ownership
import FysobEngine.Foundation.Runs

/-!
# Values of any type

`any` owns its value in a `holder` on the heap. Whatever gives it another value makes
a temporary and exchanges the contents; the temporary takes the old value with it.
Copies do not throw.
-/

namespace FysobEngine.Common

open Foundation.Ownership Foundation.Runs

/-- The `any` objects of a program, and beside them the temporary of a call. -/
abbrev Anys (ι α : Type) := Memory (Option ι) α

namespace Anys

variable {ι α τ : Type} [DecidableEq ι] [DecidableEq τ] (typeOf : α → τ)

/-- `any(const any&)`, which clones the holder. -/
def copy (m : Anys ι α) (k other : Option ι) : Option (Anys ι α) := do
  let content ← m.pointer other
  match content with
  | some holder => do
      let held ← m.heap holder
      m.fill k held
  | none => m.empty k

/-- The temporary's `swap(*this)`, and its destructor. -/
def swapOut (m : Anys ι α) (i : ι) : Option (Anys ι α) := do
  let m ← m.exchange none (some i)
  m.release none

/-- `clear`. -/
def clear (m : Anys ι α) (i : ι) : Option (Anys ι α) := do
  let m ← m.empty none
  swapOut m i

/-- `operator=` of a value. -/
def assignValue (m : Anys ι α) (i : ι) (rhs : α) : Option (Anys ι α) := do
  let m ← m.fill none rhs
  swapOut m i

/-- `operator=(const any&)`. -/
def assign (m : Anys ι α) (i rhs : ι) : Option (Anys ι α) := do
  let m ← copy m none (some rhs)
  swapOut m i

/-- `operator=(any&&)`. -/
def assignMove (m : Anys ι α) (i rhs : ι) : Option (Anys ι α) := do
  let m ← m.exchange (some rhs) (some i)
  clear m rhs

/-- `any_cast<ValueType>(any*)`, whose pointer goes to the held value. -/
def anyCast (m : Anys ι α) (operand : ι) (type : τ) : Option Nat := do
  let content ← m.pointer (some operand)
  let holder ← content
  let held ← m.heap holder
  if typeOf held = type then some holder else none

/-- What a program does with its `any` objects: it constructs and destroys them, calls
their functions, and writes through the pointer of an `any_cast`. -/
inductive Call (ι α : Type) where
  | construct (i : ι)
  | hold (i : ι) (value : α)
  | copy (i other : ι)
  | move (i other : ι)
  | destroy (i : ι)
  | swap (i rhs : ι)
  | assignValue (i : ι) (rhs : α)
  | assign (i rhs : ι)
  | assignMove (i rhs : ι)
  | clear (i : ι)
  | store (i : ι) (value : α)

def step (m : Anys ι α) : Call ι α → Option (Anys ι α)
  | .construct i => m.empty (some i)
  | .hold i value => m.fill (some i) value
  | .copy i other => copy m (some i) (some other)
  | .move i other => m.take (some i) (some other)
  | .destroy i => m.release (some i)
  | .swap i rhs => m.exchange (some i) (some rhs)
  | .assignValue i rhs => assignValue m i rhs
  | .assign i rhs => assign m i rhs
  | .assignMove i rhs => assignMove m i rhs
  | .clear i => clear m i
  | .store i value =>
      if (anyCast typeOf m i (typeOf value)).isSome then m.put (some i) value else none

/-! ## What the calls mean -/

/-- An object that lives gets this value, or none. -/
def become (v : Values ι α) (i : ι) (value : Option α) : Option (Values ι α) :=
  (v i).map fun _ => Function.update v i (some value)

/-- The calls on plain values. An object that is moved from has none, also when it is
assigned to itself. -/
def means (v : Values ι α) : Call ι α → Option (Values ι α)
  | .construct i => v.make i none
  | .hold i value => v.make i (some value)
  | .copy i other => (v other).bind (v.make i)
  | .move i other => v.take i other
  | .destroy i => v.release i
  | .swap i rhs => v.exchange i rhs
  | .assignValue i rhs => become v i (some rhs)
  | .assign i rhs => (v rhs).bind (become v i)
  | .assignMove i rhs =>
      (v rhs).bind fun value => (become v i value).bind fun v => become v rhs none
  | .clear i => become v i none
  | .store i value =>
      if (v i).join.any (fun held => typeOf held = typeOf value) then become v i (some value)
      else none

/-- The values of the objects where there is no temporary. -/
def extend (v : Values ι α) : Values (Option ι) α
  | none => none
  | some i => v i

theorem extend_update (v : Values ι α) (i : ι) (value : Option (Option α)) :
    extend (Function.update v i value) = Function.update (extend v) (some i) value := by
  funext k
  cases k with
  | none => exact (Function.update_of_ne (Option.some_ne_none i).symm _ _).symm
  | some j =>
      by_cases same : j = i
      · subst same
        rw [Function.update_self, extend, Function.update_self]
      · rw [Function.update_of_ne fun both => same (Option.some.inj both), extend, extend,
          Function.update_of_ne same]

theorem make_extend (v : Values ι α) (i : ι) (value : Option α) :
    (extend v).make (some i) value = (v.make i value).map extend := by
  unfold Values.make
  rw [apply_ite (Option.map extend), Option.map_some, extend_update]
  rfl

theorem take_extend (v : Values ι α) (i j : ι) :
    (extend v).take (some i) (some j) = (v.take i j).map extend := by
  unfold Values.take
  rw [apply_ite (Option.map extend), Option.map_map]
  congr 2
  funext value
  exact ((extend_update _ _ _).trans (congrArg (Function.update · _ _) (extend_update _ _ _))).symm

theorem exchange_extend (v : Values ι α) (i j : ι) :
    (extend v).exchange (some i) (some j) = (v.exchange i j).map extend := by
  unfold Values.exchange
  rw [apply_ite (Option.map extend), Option.map_some, extend_update, extend_update]
  rfl

theorem release_extend (v : Values ι α) (i : ι) :
    (extend v).release (some i) = (v.release i).map extend := by
  unfold Values.release
  rw [Option.map_map]
  congr 1
  funext value
  exact (extend_update _ _ _).symm

/-- The way through a temporary leaves only the new value. -/
theorem swapOut_extend (v : Values ι α) (i : ι) (value : Option α) :
    ((extend v).make none value).bind (fun v => (v.exchange none (some i)).bind (·.release none)) =
      (become v i value).map extend := by
  have made : (extend v).make none value =
      some (Function.update (extend v) none (some value)) := if_pos rfl
  rw [made, Option.bind_some]
  unfold Values.exchange become
  rw [Function.update_self, Function.update_of_ne (Option.some_ne_none i)]
  cases here : v i with
  | none => rw [if_pos (.inr here), Option.bind_none, Option.map_none, Option.map_none]
  | some old =>
      have lives : ¬ ((some value : Option (Option α)) = none ∨ extend v (some i) = none) := by
        rintro (dead | dead)
        · cases dead
        · exact absurd (here.symm.trans dead) (Option.some_ne_none old)
      rw [if_neg lives, Option.bind_some, Option.map_some, Option.map_some, extend_update]
      unfold Values.release
      rw [Function.update_of_ne (Option.some_ne_none i).symm, Function.update_self]
      refine (congrArg (Option.map _) here).trans (congrArg some ?_)
      dsimp only
      rw [Function.update_idem, Function.update_comm (Option.some_ne_none i).symm,
        Function.update_idem, Function.update_eq_self_iff]
      exact (Function.update_of_ne (Option.some_ne_none i).symm (some value) (extend v)).symm

/-! ## The calls on the memory -/

variable {m : Anys ι α} {v : Values ι α}

theorem copy_does (owned : Memory.Owned m) (k other : Option ι) :
    Memory.Does (copy m k other) ((m.values other).bind (m.values.make k)) := by
  unfold copy
  cases here : m.pointer other with
  | none =>
      rw [Memory.values_none.mpr here]
      exact .none
  | some content =>
      have value : m.values other = some (content.bind m.heap) := congrArg (Option.map _) here
      rw [value]
      cases content with
      | none => exact Memory.empty_does owned k
      | some holder =>
          obtain ⟨held, there⟩ := owned.there (congrArg Option.join here)
          dsimp only [Option.bind_eq_bind, Option.bind_some]
          rw [there]
          exact Memory.fill_does owned k held

theorem swapOut_does (owned : Memory.Owned m) (i : ι) :
    Memory.Does (swapOut m i) ((m.values.exchange none (some i)).bind (·.release none)) :=
  (Memory.exchange_does owned none (some i)).bind fun _ owned => Memory.release_does owned none

theorem clear_does (owned : Memory.Owned m) (plain : m.values = extend v) (i : ι) :
    Memory.Does (clear m i) ((become v i none).map extend) := by
  rw [← swapOut_extend, ← plain]
  exact (Memory.empty_does owned none).bind fun _ owned => swapOut_does owned i

theorem assignValue_does (owned : Memory.Owned m) (plain : m.values = extend v) (i : ι) (rhs : α) :
    Memory.Does (assignValue m i rhs) ((become v i (some rhs)).map extend) := by
  rw [← swapOut_extend, ← plain]
  exact (Memory.fill_does owned none rhs).bind fun _ owned => swapOut_does owned i

theorem assign_does (owned : Memory.Owned m) (plain : m.values = extend v) (i rhs : ι) :
    Memory.Does (assign m i rhs) (((v rhs).bind (become v i)).map extend) := by
  have through : ((v rhs).bind (become v i)).map extend =
      ((m.values (some rhs)).bind (m.values.make none)).bind fun v =>
        (v.exchange none (some i)).bind (·.release none) := by
    rw [plain, Option.map_bind, Option.bind_assoc]
    exact congrArg ((v rhs).bind ·) (funext fun value => (swapOut_extend v i value).symm)
  rw [through]
  exact (copy_does owned none (some rhs)).bind fun _ owned => swapOut_does owned i

omit [DecidableEq ι] in
/-- Calls that leave no temporary may follow each other. -/
theorem does_bind {m' : Option (Anys ι α)} {v' : Option (Values ι α)}
    (does : Memory.Does m' (v'.map extend)) {f : Anys ι α → Option (Anys ι α)}
    {g : Values ι α → Option (Values ι α)}
    (next : ∀ m v, Memory.Owned m → m.values = extend v → Memory.Does (f m) ((g v).map extend)) :
    Memory.Does (m'.bind f) ((v'.bind g).map extend) := by
  have same := does.same
  cases m' with
  | none =>
      cases v' with
      | none => exact .none
      | some v => cases same
  | some m =>
      cases v' with
      | none => cases same
      | some v => exact next m v (does.owned rfl) (Option.some.inj same)

/-- The old value goes to the object that is moved from, and dies there. -/
theorem assignMove_does (owned : Memory.Owned m) (plain : m.values = extend v) (i rhs : ι) :
    Memory.Does (assignMove m i rhs)
      (((v rhs).bind fun value => (become v i value).bind fun v => become v rhs none).map
        extend) := by
  have exchanged :
      Memory.Does (m.exchange (some rhs) (some i)) ((v.exchange rhs i).map extend) := by
    rw [← exchange_extend, ← plain]
    exact Memory.exchange_does owned (some rhs) (some i)
  have through : ((v rhs).bind fun value => (become v i value).bind fun v => become v rhs none) =
      (v.exchange rhs i).bind fun v => become v rhs none := by
    unfold Values.exchange become
    cases first : v rhs with
    | none => rw [if_pos (.inl rfl), Option.bind_none, Option.bind_none]
    | some value =>
        cases second : v i with
        | none => rw [if_pos (.inr rfl), Option.bind_none, Option.bind_some, Option.map_none,
            Option.bind_none]
        | some old =>
            rw [if_neg (by simp), Option.bind_some, Option.map_some, Option.bind_some,
              Option.bind_some]
            by_cases same : rhs = i
            · subst same
              simp only [Function.update_self, Function.update_idem, Option.map_some]
            · rw [Function.update_of_ne same, first, Function.update_of_ne same,
                Function.update_self, Function.update_comm same, Function.update_idem]
              rfl
  rw [through]
  exact does_bind exchanged fun m v owned plain => clear_does owned plain rhs

omit [DecidableEq ι] in
theorem anyCast_values (typeOf : α → τ) (m : Anys ι α) (i : ι) (type : τ) :
    (anyCast typeOf m i type).bind m.heap =
      (m.values (some i)).join.filter (fun held => typeOf held = type) := by
  unfold anyCast Memory.values
  cases m.pointer (some i) with
  | none => rfl
  | some content =>
      cases content with
      | none => rfl
      | some holder =>
          dsimp only [Option.bind_eq_bind, Option.bind_some, Option.map_some, Option.join_some]
          cases there : m.heap holder with
          | none => rfl
          | some held =>
              rw [Option.bind_some, Option.filter_some]
              by_cases same : typeOf held = type
              · rw [if_pos same, if_pos (decide_eq_true same)]
                exact there
              · rw [if_neg same, if_neg (by simpa using same)]
                rfl

omit [DecidableEq ι] in
theorem anyCast_isSome (typeOf : α → τ) (m : Anys ι α) (i : ι) (type : τ) :
    (anyCast typeOf m i type).isSome =
      (m.values (some i)).join.any (fun held => typeOf held = type) := by
  unfold anyCast Memory.values
  cases m.pointer (some i) with
  | none => rfl
  | some content =>
      cases content with
      | none => rfl
      | some holder =>
          dsimp only [Option.bind_eq_bind, Option.bind_some, Option.map_some, Option.join_some]
          cases m.heap holder with
          | none => rfl
          | some held =>
              rw [Option.bind_some, Option.any_some]
              by_cases same : typeOf held = type
              · rw [if_pos same, decide_eq_true same]
                rfl
              · rw [if_neg same, decide_eq_false same]
                rfl

theorem step_does (owned : Memory.Owned m) (plain : m.values = extend v) (call : Call ι α) :
    Memory.Does (step typeOf m call) ((means typeOf v call).map extend) := by
  cases call with
  | construct i =>
      rw [means, ← make_extend, ← plain]
      exact Memory.empty_does owned (some i)
  | hold i value =>
      rw [means, ← make_extend, ← plain]
      exact Memory.fill_does owned (some i) value
  | copy i other =>
      have made : (means typeOf v (.copy i other)).map extend =
          (m.values (some other)).bind (m.values.make (some i)) := by
        rw [means, Option.map_bind, plain]
        exact congrArg ((v other).bind ·) (funext fun value => (make_extend v i value).symm)
      rw [made]
      exact copy_does owned (some i) (some other)
  | move i other =>
      rw [means, ← take_extend, ← plain]
      exact Memory.take_does owned (some i) (some other)
  | destroy i =>
      rw [means, ← release_extend, ← plain]
      exact Memory.release_does owned (some i)
  | swap i rhs =>
      rw [means, ← exchange_extend, ← plain]
      exact Memory.exchange_does owned (some i) (some rhs)
  | assignValue i rhs => exact assignValue_does owned plain i rhs
  | assign i rhs => exact assign_does owned plain i rhs
  | assignMove i rhs => exact assignMove_does owned plain i rhs
  | clear i => exact clear_does owned plain i
  | store i value =>
      unfold step means
      dsimp only
      rw [anyCast_isSome, plain]
      cases here : v i with
      | none =>
          rw [if_neg (by simp [extend, here]), if_neg (by simp)]
          exact .none
      | some content =>
          cases content with
          | none =>
              rw [if_neg (by simp [extend, here]), if_neg (by simp)]
              exact .none
          | some held =>
              by_cases same : typeOf held = typeOf value
              · have stored : (become v i (some value)).map extend =
                    m.values.put (some i) value := by
                  unfold become Values.put
                  rw [plain, extend, here, Option.map_some, Option.map_some, extend_update]
                  rfl
                rw [if_pos (by simp [extend, here, same]), if_pos (by simp [same]), stored]
                exact Memory.put_does owned (some i) value
              · rw [if_neg (by simp [extend, here, same]), if_neg (by simp [same])]
                exact .none

theorem reached_does (owned : Memory.Owned m) (plain : m.values = extend v)
    (calls : List (Call ι α)) :
    Memory.Does (last (step typeOf) m calls) ((last (means typeOf) v calls).map extend) := by
  induction calls generalizing m v with
  | nil =>
      rw [last, last, Option.map_some, ← plain]
      exact owned.does
  | cons call rest ih =>
      exact does_bind (step_does typeOf owned plain call) fun m v owned plain => ih owned plain

omit [DecidableEq ι] in
theorem anyCast_target {i : ι} {type : τ} {holder : Nat}
    (found : anyCast typeOf m i type = some holder) : m.target (some i) = some holder := by
  unfold anyCast at found
  obtain ⟨content, here, found⟩ := Option.bind_eq_some_iff.mp found
  obtain ⟨address, own, found⟩ := Option.bind_eq_some_iff.mp found
  obtain ⟨held, there, found⟩ := Option.bind_eq_some_iff.mp found
  by_cases same : typeOf held = type
  · rw [if_pos same] at found
    cases found
    exact Option.join_eq_some_iff.mpr (here.trans (congrArg some own))
  · rw [if_neg same] at found
    cases found

/-- Whatever a program does with its `any` objects, they are plain values: it deletes
no holder twice and follows no stale pointer, as far as it uses only objects that live;
`any_cast` finds the value of its object if it has the type; no two objects share a
holder; and no holder is lost. -/
theorem anys_are_values (calls : List (Call ι α)) :
    (last (step typeOf) Memory.bare calls).map (fun m i => m.values (some i)) =
        last (means typeOf) (fun _ => none) calls ∧
      ∀ m, last (step typeOf) Memory.bare calls = some m →
        m.pointer none = none ∧
        (∀ i type, (anyCast typeOf m i type).bind m.heap =
          (m.values (some i)).join.filter fun held => typeOf held = type) ∧
        (∀ i j type type' holder, anyCast typeOf m i type = some holder →
          anyCast typeOf m j type' = some holder → i = j) ∧
        ∀ holder held, m.heap holder = some held →
          ∃ i, m.pointer (some i) = some (some holder) := by
  have plain : (Memory.bare : Anys ι α).values = extend fun _ => none := by
    funext k
    cases k <;> rfl
  have does := reached_does typeOf Memory.bare_owned plain calls
  refine ⟨?_, fun m reached => ?_⟩
  · have same := congrArg (Option.map fun (v : Values (Option ι) α) i => v (some i)) does.same
    rw [Option.map_map, Option.map_map] at same
    exact same.trans (congrFun Option.map_id _)
  · have owned : Memory.Owned m := does.owned reached
    have same := does.same
    rw [reached] at same
    obtain ⟨v, _, values⟩ := Option.map_eq_some_iff.mp same.symm
    have done : m.pointer none = none := Memory.values_none.mp (congrFun values none).symm
    refine ⟨done, anyCast_values typeOf m, fun i j type type' holder first second => ?_,
      fun holder held there => ?_⟩
    · exact Option.some.inj
        (owned.alone (anyCast_target typeOf first) (anyCast_target typeOf second))
    · obtain ⟨k, own⟩ := owned.owner there
      have here := Option.join_eq_some_iff.mp own
      cases k with
      | none =>
          rw [done] at here
          cases here
      | some i => exact ⟨i, here⟩

/-- An object that is assigned to itself by a move has no value. -/
example : (last (step (id : Nat → Nat)) Memory.bare
    [.hold (0 : Fin 2) 7, .copy 1 0, .assignMove 0 0]).map
      (fun m => (m.values (some 0), m.values (some 1))) = some (some none, some (some 7)) := by
  decide

end Anys

end FysobEngine.Common
