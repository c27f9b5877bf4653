import FysobEngine.Common.TimerInvariant

/-!
# The ticks of the timer

A tick empties the spoke that the first wheel stands at. With the last spoke of
a wheel it moves the nodes of the next wheel's spoke further in.
-/

namespace FysobEngine.Common.Timer

open Foundation.Odometer

variable {clock : Nat → Nat} {s : Timer} {top p t : Nat} {held : List TimerNode}

theorem wheelUnit_dvd {inner outer : Nat} (order : inner ≤ outer) (member : outer < wheelNum) :
    wheelUnit inner ∣ wheelUnit outer := by
  induction order with
  | refl => exact Nat.dvd_refl _
  | @step outer order ih =>
      rw [wheelUnit_succ member]
      exact Nat.dvd_trans (ih (Nat.lt_of_succ_lt member)) (Nat.dvd_mul_right _ _)

/-- A wheel at one of its spokes stands at the digit of its tick. -/
theorem digit_eq {wheel : Nat} (bounded : s.spokeIndex wheel < wheelSize wheel)
    (stands : s.StandsFor wheel p) :
    digit (wheelUnit wheel) (wheelSize wheel) p = s.spokeIndex wheel := by
  rw [← stands, Nat.mod_eq_of_lt bounded]

/-- The wheel `top` behind its turn: it stands one spoke further, and the nodes of
the spoke it leaves are taken off. -/
def turned (s : Timer) (top : Nat) : Timer :=
  (s.setSpokeIndex top (s.spokeIndex top + 1)).setSpoke top (s.spokeIndex top) []

theorem turned_spokeIndex (s : Timer) (top wheel : Nat) :
    (turned s top).spokeIndex wheel =
      if wheel = top then s.spokeIndex top + 1 else s.spokeIndex wheel := rfl

theorem turned_spokes (s : Timer) (top wheel index : Nat) :
    (turned s top).spokes wheel index =
      if wheel = top ∧ index = s.spokeIndex top then [] else s.spokes wheel index := rfl

namespace Inv

/-- The wheel that turns stood at the digit of the tick. -/
theorem turning_digit (inv : Inv clock s top p t held) (inner : top < wheelNum)
    (bounded : s.spokeIndex top < wheelSize top) :
    digit (wheelUnit top) (wheelSize top) p = s.spokeIndex top := by
  have stands := inv.stands top inner
  rw [placeOf_waiting (Nat.lt_irrefl top)] at stands
  exact digit_eq bounded stands

theorem turned_stands (inv : Inv clock s top p t held) (inner : top < wheelNum)
    (bounded : s.spokeIndex top < wheelSize top) (turn : wheelUnit top ∣ p + 1)
    {wheel : Nat} (member : wheel < wheelNum) :
    (turned s top).StandsFor wheel (placeOf (top + 1) p wheel) := by
  unfold StandsFor
  rw [turned_spokeIndex]
  by_cases other : wheel = top
  · subst other
    have here := inv.turning_digit inner bounded
    rw [if_pos rfl, placeOf_turned (Nat.lt_succ_self wheel), digit, div_succ_of_dvd turn,
      Nat.add_mod (p / wheelUnit wheel), Nat.add_mod, ← here, digit, Nat.mod_mod]
  · rw [if_neg other, (placeOf_succ other p t).1]
    exact inv.stands wheel member

theorem turned_linked (inv : Inv clock s top p t held) (inner : top < wheelNum)
    (bounded : s.spokeIndex top < wheelSize top) {wheel : Nat} (member : wheel < wheelNum)
    {index : Nat} {node : TimerNode} (linked : node ∈ (turned s top).spokes wheel index) :
    Timely (OnTime s.trace) wheel (placeOf (top + 1) p wheel) (timeOf (top + 1) t wheel)
      (s.lastReading clock) index node := by
  rw [turned_spokes] at linked
  split at linked
  · cases linked
  · next apart =>
      have on := inv.linked wheel member index node linked
      by_cases other : wheel = top
      · subst other
        have here := inv.turning_digit inner bounded
        rw [placeOf_waiting (Nat.lt_irrefl wheel), timeOf_waiting (Nat.lt_irrefl wheel)] at on
        rw [placeOf_turned (Nat.lt_succ_self wheel), timeOf_turned (Nat.lt_succ_self wheel)]
        -- the node is on another spoke than the one that the wheel leaves
        apply on.advance
        rintro ⟨_, place⟩
        exact apart ⟨rfl, by rw [← place, here]⟩
      · rw [(placeOf_succ other p t).1, (placeOf_succ other p t).2]
        exact on

/-- The nodes of the spoke that the wheel leaves are in hand. -/
theorem turned_located (inv : Inv clock s top p t held) {node : TimerNode}
    (member : .created node ∈ s.trace) :
    (turned s top).Located (s.spokes top (s.spokeIndex top) ++ held) node := by
  rcases inv.accounted node member with ⟨wheel, bound, index, linked⟩ | ready | inHand | rest
  · by_cases taken : wheel = top ∧ index = s.spokeIndex top
    · obtain ⟨rfl, rfl⟩ := taken
      exact .inr (.inr (.inl (List.mem_append_left held linked)))
    · refine .inl ⟨wheel, bound, index, ?_⟩
      rw [turned_spokes, if_neg taken]
      exact linked
  · exact .inr (.inl ready)
  · exact .inr (.inr (.inl (List.mem_append_right _ inHand)))
  · exact .inr (.inr (.inr rest))

/-- The wheel `top` turns: the nodes of its spoke are in hand, and it stands for
the next tick. -/
theorem turn (inv : Inv clock s top p t held) (inner : top < wheelNum)
    (bounded : s.spokeIndex top < wheelSize top) (turn : wheelUnit top ∣ p + 1)
    (later : t + granularity ≤ s.lastReading clock) :
    Inv clock (turned s top) (top + 1) p t (s.spokes top (s.spokeIndex top) ++ held) := by
  refine ⟨inv.started, inv.checked, ?_, ?_, ?_, inv.ready, inv.fired, ?_⟩
  · intro wheel member
    by_cases other : wheel = top
    · rw [other, timeOf_turned (Nat.lt_succ_self top)]
      exact later
    · rw [(placeOf_succ other p t).2]
      exact inv.behind wheel member
  · intro wheel member
    exact inv.turned_stands inner bounded turn member
  · intro wheel member index node linked
    exact inv.turned_linked inner bounded member linked
  · intro node member
    exact inv.turned_located member

/-- The wheels from `top` on do not turn in this tick. -/
theorem rest (inv : Inv clock s top p t held)
    (still : top < wheelNum → ¬ wheelUnit top ∣ p + 1)
    (later : t + granularity ≤ s.lastReading clock) : Inv clock s wheelNum p t held := by
  have stays {wheel : Nat} (member : wheel < wheelNum) (outer : ¬ wheel < top) :
      ¬ wheelUnit wheel ∣ p + 1 := by
    have order := Nat.le_of_not_lt outer
    intro turns
    exact still (Nat.lt_of_le_of_lt order member)
      (Nat.dvd_trans (wheelUnit_dvd order member) turns)
  refine ⟨inv.started, inv.checked, ?_, ?_, ?_, inv.ready, inv.fired, inv.accounted⟩
  · intro wheel member
    rw [timeOf_turned member]
    exact later
  · intro wheel member
    have stands := inv.stands wheel member
    rw [placeOf_turned member]
    by_cases below : wheel < top
    · rw [placeOf_turned below] at stands
      exact stands
    · rw [placeOf_waiting below] at stands
      rw [StandsFor, digit, div_succ_of_not_dvd (stays member below)]
      exact stands
  · intro wheel member index node linked
    have on := inv.linked wheel member index node linked
    rw [placeOf_turned member, timeOf_turned member]
    by_cases below : wheel < top
    · rw [placeOf_turned below, timeOf_turned below] at on
      exact on
    · rw [placeOf_waiting below, timeOf_waiting below] at on
      exact on.advance fun turns => stays member below turns.1

/-- All wheels stand for the next tick, and `checktime_` counts it. -/
theorem complete (inv : Inv clock s wheelNum p t held) :
    Inv clock { s with checktime := s.checktime + granularity } 0 (p + 1) (t + granularity)
      held := by
  have checked := inv.checked
  refine ⟨inv.started, by rw [checked], ?_, ?_, ?_, inv.ready, inv.fired, inv.accounted⟩
  · intro wheel member
    have behind := inv.behind wheel member
    rw [timeOf_turned member] at behind
    exact behind
  · intro wheel member
    have stands := inv.stands wheel member
    rw [placeOf_turned member] at stands
    exact stands
  · intro wheel member index node linked
    have on := inv.linked wheel member index node linked
    rw [placeOf_turned member, timeOf_turned member] at on
    exact on

end Inv

/-! ## Cascades -/

theorem cascadeNodes_frame (now : Nat) (nodes : List TimerNode) (s : Timer) (casnum : Nat) :
    (cascadeNodes now nodes s casnum).1.spokeIndex = s.spokeIndex ∧
      (cascadeNodes now nodes s casnum).1.readings = s.readings := by
  induction nodes generalizing s casnum with
  | nil => exact ⟨rfl, rfl⟩
  | cons node rest ih =>
      rw [cascadeNodes]
      split
      · exact ih _ _
      · exact ih _ _

/-- The nodes in hand of a turned wheel go onto the ready list or further in. -/
theorem cascadeNodes_inv {wheel : Nat} {nodes : List TimerNode} (inner : wheel < wheelNum)
    (inv : Inv clock s (wheel + 1) p t nodes)
    (level : ∀ node ∈ nodes,
      node.deadTime < s.lastReading clock + granularity * wheelReach wheel) (casnum : Nat) :
    Inv clock (cascadeNodes (s.lastReading clock) nodes s casnum).1 (wheel + 1) p t [] := by
  induction nodes generalizing s casnum with
  | nil => exact inv
  | cons node rest ih =>
      have levels : ∀ other ∈ rest,
          other.deadTime < s.lastReading clock + granularity * wheelReach wheel :=
        fun other member => level other (List.mem_cons_of_mem node member)
      rw [cascadeNodes]
      split
      · next due =>
          have ready := inv.toReady fun _ =>
            Nat.lt_of_le_of_lt due (Nat.lt_add_of_pos_right (by decide))
          exact ih ready levels casnum
      · next early =>
          have checked := inv.checked
          subst checked
          have bound := level node List.mem_cons_self
          have near : (node.deadTime - s.lastReading clock) / granularity < wheelReach wheel :=
            Nat.div_lt_of_lt_mul (by omega)
          have same (below : Nat) (order : below ≤ wheel) :
              placeOf (wheel + 1) p below = p + 1 ∧
                timeOf (wheel + 1) s.checktime below = s.checktime + granularity :=
            ⟨placeOf_turned (Nat.lt_succ_of_le order), timeOf_turned (Nat.lt_succ_of_le order)⟩
          exact ih (inv.place inner same near (by omega)) levels (casnum + 1)

/-- The next wheel turns when this one leaves its last spoke. -/
theorem next_turns_iff {wheel : Nat} (member : wheel + 1 < wheelNum)
    (bounded : s.spokeIndex wheel < wheelSize wheel) (stands : s.StandsFor wheel p)
    (turn : wheelUnit wheel ∣ p + 1) :
    wheelUnit (wheel + 1) ∣ p + 1 ↔ wheelSize wheel ≤ s.spokeIndex wheel + 1 := by
  have here := digit_eq bounded stands
  rw [wheelUnit_succ member, dvd_next (wheelUnit_pos wheel) turn, Nat.dvd_iff_mod_eq_zero,
    Nat.add_mod]
  rw [digit] at here
  rw [here, Nat.add_mod_mod]
  constructor
  · intro wrapped
    apply Nat.le_of_not_lt
    intro inside
    rw [Nat.mod_eq_of_lt inside] at wrapped
    cases wrapped
  · intro full
    have same : s.spokeIndex wheel + 1 = wheelSize wheel := Nat.le_antisymm bounded full
    rw [same, Nat.mod_self]

/-- A wheel that has left its last spoke stands at the first one again. -/
theorem Inv.reset (inv : Inv clock s top p t held) {wheel : Nat}
    (full : s.spokeIndex wheel = wheelSize wheel) :
    Inv clock (s.setSpokeIndex wheel 0) top p t held := by
  refine ⟨inv.started, inv.checked, inv.behind, ?_, inv.linked, inv.ready, inv.fired,
    inv.accounted⟩
  intro other member
  have stands := inv.stands other member
  unfold StandsFor at stands ⊢
  change (if other = wheel then 0 else s.spokeIndex other) % _ = _
  split
  · next same =>
      rw [same, full, Nat.mod_self] at stands
      rw [same, Nat.zero_mod]
      exact stands
  · exact stands

/-- The state behind the nodes of one wheel in `cascade`. -/
def cascaded (clock : Nat → Nat) (wheel : Nat) (s : Timer) : Timer :=
  (cascadeNodes (clock s.readings) (s.spokes wheel (s.spokeIndex wheel))
    (((s.getCurrentMillisec clock).2.setSpokeIndex wheel (s.spokeIndex wheel + 1)).setSpoke
      wheel (s.spokeIndex wheel) []) 0).1

theorem cascade_succ (left wheel : Nat) (s : Timer) :
    (cascade clock (left + 1) wheel s).1 =
      if (cascaded clock wheel s).spokeIndex wheel ≥ wheelSize wheel then
        (cascade clock left (wheel + 1) ((cascaded clock wheel s).setSpokeIndex wheel 0)).1
      else cascaded clock wheel s := by
  rw [cascade]
  exact apply_ite Prod.fst _ _ _

theorem cascaded_frame (clock : Nat → Nat) (wheel : Nat) (s : Timer) :
    (cascaded clock wheel s).spokeIndex wheel = s.spokeIndex wheel + 1 ∧
      (∀ other, other ≠ wheel → (cascaded clock wheel s).spokeIndex other = s.spokeIndex other) ∧
      (cascaded clock wheel s).readings = s.readings + 1 := by
  obtain ⟨indices, readings⟩ := cascadeNodes_frame (clock s.readings)
    (s.spokes wheel (s.spokeIndex wheel))
    (((s.getCurrentMillisec clock).2.setSpokeIndex wheel (s.spokeIndex wheel + 1)).setSpoke
      wheel (s.spokeIndex wheel) []) 0
  refine ⟨?_, ?_, readings⟩
  · rw [cascaded, indices]
    exact if_pos rfl
  · intro other apart
    rw [cascaded, indices]
    exact if_neg apart

theorem cascaded_inv (steady : NonDecreasing clock) {wheel : Nat} (inner : wheel < wheelNum)
    (inv : Inv clock s wheel p t []) (bounded : s.Bounded) (turn : wheelUnit wheel ∣ p + 1)
    (later : t + granularity ≤ s.lastReading clock) :
    Inv clock (cascaded clock wheel s) (wheel + 1) p t [] := by
  obtain ⟨read, order, last⟩ := inv.read steady
  have turned := read.turn inner (bounded wheel inner) turn (Nat.le_trans later (last ▸ order))
  rw [List.append_nil] at turned
  exact cascadeNodes_inv inner turned
    (fun node member => (read.linked wheel inner _ node member).level) 0

theorem wheelSize_pos (wheel : Nat) : 0 < wheelSize wheel := by
  unfold wheelSize
  split
  · decide
  · decide

/-- Wheels of which one moved on are bounded if that one is. -/
theorem Bounded.moved (bounded : s.Bounded) {s' : Timer} {wheel : Nat}
    (others : ∀ other, other ≠ wheel → s'.spokeIndex other = s.spokeIndex other)
    (inside : s'.spokeIndex wheel < wheelSize wheel) : s'.Bounded := by
  intro other member
  by_cases same : other = wheel
  · rw [same]
    exact inside
  · rw [others other same]
    exact bounded other member

/-- The wheel that left its last spoke stands at the first one. -/
theorem Bounded.reset (bounded : s.Bounded) {s' : Timer} {wheel : Nat}
    (others : ∀ other, other ≠ wheel → s'.spokeIndex other = s.spokeIndex other) :
    (s'.setSpokeIndex wheel 0).Bounded := by
  have inside : (s'.setSpokeIndex wheel 0).spokeIndex wheel < wheelSize wheel := by
    have first : (s'.setSpokeIndex wheel 0).spokeIndex wheel = 0 := if_pos rfl
    rw [first]
    exact wheelSize_pos wheel
  refine bounded.moved (fun other apart => ?_) inside
  rw [← others other apart]
  exact if_neg apart

/-- A cascade takes every wheel to the next tick. -/
theorem cascade_inv (steady : NonDecreasing clock) {left wheel : Nat}
    (wheels : left + wheel = wheelNum) (inv : Inv clock s wheel p t []) (bounded : s.Bounded)
    (turn : wheel < wheelNum → wheelUnit wheel ∣ p + 1)
    (later : t + granularity ≤ s.lastReading clock) :
    Inv clock (cascade clock left wheel s).1 wheelNum p t [] ∧
      (cascade clock left wheel s).1.Bounded ∧
      s.lastReading clock ≤ (cascade clock left wheel s).1.lastReading clock := by
  induction left generalizing wheel s with
  | zero =>
      rw [Nat.zero_add] at wheels
      rw [wheels] at inv
      exact ⟨inv, bounded, Nat.le_refl _⟩
  | succ left ih =>
      have inner : wheel < wheelNum := by omega
      have stands := inv.stands wheel inner
      rw [placeOf_waiting (Nat.lt_irrefl wheel)] at stands
      have order := (inv.read steady).2.1
      obtain ⟨index, others, readings⟩ := cascaded_frame clock wheel s
      have behind := cascaded_inv steady inner inv bounded (turn inner) later
      have last : (cascaded clock wheel s).lastReading clock = clock s.readings := by
        rw [lastReading, readings, Nat.add_sub_cancel]
      rw [cascade_succ]
      split
      · next full =>
          rw [index] at full
          have whole : s.spokeIndex wheel + 1 = wheelSize wheel :=
            Nat.le_antisymm (bounded wheel inner) full
          have reset := behind.reset (index.trans whole)
          obtain ⟨done, after, grows⟩ := ih (by omega) reset (bounded.reset others)
            (fun member => (next_turns_iff member (bounded wheel inner) stands
              (turn inner)).mpr full) (Nat.le_trans later (last ▸ order))
          exact ⟨done, after, Nat.le_trans (last ▸ order) grows⟩
      · next within =>
          refine ⟨?_, bounded.moved others (Nat.lt_of_not_le within), last ▸ order⟩
          apply behind.rest _ (Nat.le_trans later (last ▸ order))
          intro member turns
          rw [index] at within
          exact within ((next_turns_iff member (bounded wheel inner) stands
            (turn inner)).mp turns)

/-! ## Ticks -/

/-- The nodes in hand of the first wheel go onto the ready list. -/
theorem allReady {nodes : List TimerNode} (inv : Inv clock s top p t nodes)
    (due : ∀ node ∈ nodes, OnTime s.trace →
      node.deadTime < s.lastReading clock + granularity) :
    Inv clock { s with readyNodes := s.readyNodes ++ nodes } top p t [] := by
  induction nodes generalizing s with
  | nil =>
      rw [List.append_nil]
      exact inv
  | cons node rest ih =>
      have first := inv.toReady (due node List.mem_cons_self)
      have later := ih first fun other member => due other (List.mem_cons_of_mem node member)
      have same : s.readyNodes ++ node :: rest = (s.readyNodes ++ [node]) ++ rest := by
        rw [List.append_assoc]
        rfl
      rw [same]
      exact later

/-- The state behind the first wheel in a tick. -/
def emptied (s : Timer) : Timer :=
  { (s.setSpokeIndex 0 (s.spokeIndex 0 + 1)).setSpoke 0 (s.spokeIndex 0) [] with
    readyNodes := s.readyNodes ++ s.spokes 0 (s.spokeIndex 0) }

theorem tick_eq (s : Timer) : s.tick clock =
    if wheelSize 0 ≤ s.spokeIndex 0 + 1 then
      { (cascade clock 4 1 (s.emptied.setSpokeIndex 0 0)).1 with
        checktime := (cascade clock 4 1 (s.emptied.setSpokeIndex 0 0)).1.checktime + granularity }
    else { s.emptied with checktime := s.emptied.checktime + granularity } :=
  apply_ite (fun s : Timer => { s with checktime := s.checktime + granularity }) _ _ _

theorem tick_inv (steady : NonDecreasing clock) (inv : Inv clock s 0 p t [])
    (bounded : s.Bounded) (later : t + granularity ≤ s.lastReading clock) :
    Inv clock (s.tick clock) 0 (p + 1) (t + granularity) [] ∧ (s.tick clock).Bounded ∧
      s.lastReading clock ≤ (s.tick clock).lastReading clock := by
  have inner : 0 < wheelNum := by decide
  have stands := inv.stands 0 inner
  have here : Turns (wheelUnit 0) (wheelSize 0) p (s.spokeIndex 0) :=
    ⟨Nat.one_dvd (p + 1), digit_eq (bounded 0 inner) stands⟩
  have turned := inv.turn inner (bounded 0 inner) (Nat.one_dvd (p + 1)) later
  rw [List.append_nil] at turned
  have emptied : Inv clock s.emptied 1 p t [] := by
    apply allReady turned
    intro node member timely
    have on := inv.linked 0 inner _ node member
    rcases on.due timely rfl p (Nat.le_refl p) here with before | before
    · unfold granularity at *
      change node.deadTime < s.lastReading clock + 10
      change node.deadTime < t + 10 * (p - p) + 2 * 10 at before
      omega
    · exact before
  have others : ∀ other, other ≠ 0 → s.emptied.spokeIndex other = s.spokeIndex other :=
    fun other apart => if_neg apart
  rw [tick_eq]
  split
  · next full =>
      have whole : s.emptied.spokeIndex 0 = wheelSize 0 := Nat.le_antisymm (bounded 0 inner) full
      have reset := emptied.reset whole
      obtain ⟨done, after, grows⟩ := cascade_inv steady (rfl : 4 + 1 = wheelNum) reset
        (bounded.reset others) (fun member => (next_turns_iff member (bounded 0 inner) stands
          (Nat.one_dvd (p + 1))).mpr full) later
      exact ⟨done.complete, after, grows⟩
  · next within =>
      have inside : s.emptied.Bounded := bounded.moved others (Nat.lt_of_not_le within)
      refine ⟨(emptied.rest ?_ later).complete, inside, Nat.le_refl _⟩
      intro member turns
      exact within ((next_turns_iff member (bounded 0 inner) stands
        (Nat.one_dvd (p + 1))).mp turns)

theorem ticks_inv (steady : NonDecreasing clock) (loopnum : Nat) (inv : Inv clock s 0 p t [])
    (bounded : s.Bounded) (later : t + granularity * loopnum ≤ s.lastReading clock) :
    Inv clock (ticks clock loopnum s) 0 (p + loopnum) (t + granularity * loopnum) [] ∧
      (ticks clock loopnum s).Bounded := by
  induction loopnum generalizing s p t with
  | zero => exact ⟨inv, bounded⟩
  | succ loopnum ih =>
      have next : t + granularity + granularity * loopnum = t + granularity * (loopnum + 1) := by
        rw [Nat.mul_succ, Nat.add_assoc, Nat.add_comm granularity]
      have first : t + granularity ≤ s.lastReading clock := by
        rw [← next] at later
        exact Nat.le_trans (Nat.le_add_right _ _) later
      obtain ⟨ticked, inside, grows⟩ := tick_inv steady inv bounded first
      have rest := ih ticked inside (next ▸ Nat.le_trans later grows)
      rw [next, Nat.add_assoc, Nat.add_comm 1] at rest
      exact rest

end FysobEngine.Common.Timer
