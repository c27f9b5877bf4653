import FysobEngine.Net.AsioBufferPlaces

/-!
# Bytes in flight

`session::write` hands the segments of `const_buffer()` to the socket, and
`write_buffer_` may be appended to until `handle_write` runs. The segments stay
valid when their blocks stay in the list with their bytes.
-/

namespace FysobEngine.Net.PlacedBuffer

open Foundation.Segments Foundation.Runs

variable {p q : PlacedBuffer}

/-! ## Segments as the socket sees them -/

/-- `const_buffer`: the address of the block, the first index and the length. -/
def constBuffer (p : PlacedBuffer) : List (Nat × Nat × Nat) :=
  p.state.constBuffer.map fun (iter, index, len) => (p.places.getD iter 0, index, len)

/-- The bytes that such a segment covers. -/
def segmentBytes (p : PlacedBuffer) : Nat × Nat × Nat → List UInt8
  | (place, index, len) => (((p.blockAt place).getD []).drop index).take len

/-- The segments of `const_buffer()` survive the appends: every one of them
returns, the blocks are still in `buffer_`, the bytes covered are the same, and
`const_buffer()` then shows them and the appended bytes. -/
def SendStable (p : PlacedBuffer) (appends : List (List UInt8)) : Prop :=
  ∃ q, last append p appends = some q ∧
    (∀ segment ∈ p.constBuffer,
      segment.1 ∈ q.places ∧ q.segmentBytes segment = p.segmentBytes segment) ∧
    q.constBuffer.flatMap q.segmentBytes =
      p.constBuffer.flatMap p.segmentBytes ++ appends.flatten

/-- Each append fits into the blocks that its `adjust_buffer` leaves. -/
def AppendsFit (s : AsioBuffer) (appends : List (List UInt8)) : Prop :=
  Along AsioBuffer.Admissible AsioBuffer.Performs AsioBuffer.WriteFits s
    (appends.map .append)

/-! ## The nodes that the segments name -/

/-- The segment is between the read and the write position. -/
structure Unread (s : AsioBuffer) (iter index len : Nat) : Prop where
  behind : s.readBufferIter ≤ iter
  before : iter < s.writeBufferIter ∨ iter = s.writeBufferIter ∧ index + len ≤ s.writeIndex

theorem wholeSegments_iter {blocks : List DataBlock} {start iter index len : Nat}
    (member : (iter, index, len) ∈ AsioBuffer.wholeSegments start blocks) :
    start ≤ iter ∧ iter < start + blocks.length := by
  induction blocks generalizing start with
  | nil => cases member
  | cons block rest ih =>
      rw [AsioBuffer.wholeSegments, List.mem_cons] at member
      rw [List.length_cons]
      rcases member with here | behind
      · cases here
        omega
      · have inside := ih behind
        omega

theorem constBuffer_unread {s : AsioBuffer} (layout : s.Layout) {iter index len : Nat}
    (member : (iter, index, len) ∈ s.constBuffer) : Unread s iter index len := by
  have order := layout.iter_le
  unfold AsioBuffer.constBuffer at member
  split at member
  · next same =>
      cases List.mem_singleton.mp member
      have ordered := layout.ordered
      unfold AsioBuffer.readOffset AsioBuffer.writeOffset offset at ordered
      rw [same] at ordered
      exact ⟨Nat.le_refl _, .inr ⟨same, by omega⟩⟩
  · next other =>
      have later : s.readBufferIter < s.writeBufferIter := Nat.lt_of_le_of_ne order other
      split at member
      · cases member
      · next block rest split =>
          rcases List.mem_append.mp member with early | final
          · rcases List.mem_cons.mp early with first | middle
            · cases first
              exact ⟨Nat.le_refl _, .inl later⟩
            · have inside := wholeSegments_iter middle
              have taken := List.length_take_le (s.writeBufferIter - (s.readBufferIter + 1)) rest
              exact ⟨by omega, .inl (by omega)⟩
          · cases List.mem_singleton.mp final
            exact ⟨order, .inr ⟨rfl, Nat.le_of_eq (Nat.zero_add _)⟩⟩

/-- A segment in flight, by the node that its block has now. -/
structure Shows (p : PlacedBuffer) (segment : Nat × Nat × Nat) (bytes : List UInt8)
    (iter : Nat) : Prop where
  place : p.places[iter]? = some segment.1
  unread : Unread p.state iter segment.2.1 segment.2.2
  bytes : (((p.state.buffer[iter]?).getD []).drop segment.2.1).take segment.2.2 = bytes

/-! ## One append -/

theorem getElem?_slid {α : Type} {xs ys more : List α} {shift iter : Nat}
    (front : xs <+: ys.drop shift ++ more) (short : iter < xs.length)
    (inside : shift + iter < ys.length) : xs[iter]? = ys[shift + iter]? := by
  have same := List.prefix_iff_getElem?.mp front iter short
  rw [List.getElem?_eq_getElem short, ← same, List.getElem?_append_left, List.getElem?_drop]
  rw [List.length_drop]
  omega

theorem appendLoop_length {blocks stored : List DataBlock} {data : List UInt8}
    (done : AsioBuffer.appendLoop blocks data = some stored) :
    stored.length = blocks.length := by
  induction blocks generalizing stored data with
  | nil => cases done
  | cons block rest ih =>
      rw [AsioBuffer.appendLoop] at done
      split at done
      · obtain ⟨behind, loop, rfl⟩ := Option.map_eq_some_iff.mp done
        rw [List.length_cons, List.length_cons, ih loop]
      · cases done
        rfl

/-- Copying keeps the blocks before the write position, and starts in the block
of the write position at its index. -/
theorem appendCopy_keeps {buffer stored : List DataBlock} {iter index : Nat} {data : List UInt8}
    (done : AsioBuffer.appendCopy buffer iter index data = some stored) :
    ∃ front block back back' copied, buffer = front ++ block :: back ∧ front.length = iter ∧
      back'.length = back.length ∧ stored = front ++ overwrite block index copied :: back' := by
  have split := List.take_append_drop iter buffer
  unfold AsioBuffer.appendCopy at done
  cases rest : buffer.drop iter with
  | nil =>
      rw [rest] at done
      cases done
  | cons block back =>
      have length : (buffer.take iter).length = iter := by
        have behind := congrArg List.length rest
        rw [List.length_drop, List.length_cons] at behind
        rw [List.length_take]
        omega
      rw [rest] at done split
      dsimp only at done
      split at done
      · cases done
        exact ⟨_, block, back, back, data, split.symm, length, rfl, rfl⟩
      · obtain ⟨behind, loop, rfl⟩ := Option.map_eq_some_iff.mp done
        exact ⟨_, block, back, behind, _, split.symm, length, appendLoop_length loop, rfl⟩

theorem appendCopy_length {buffer stored : List DataBlock} {iter index : Nat}
    {data : List UInt8} (done : AsioBuffer.appendCopy buffer iter index data = some stored) :
    stored.length = buffer.length := by
  obtain ⟨front, block, back, back', copied, rfl, _, length, rfl⟩ := appendCopy_keeps done
  rw [List.length_append, List.length_append, List.length_cons, List.length_cons, length]

theorem take_overwrite {block copied : List UInt8} {index bound : Nat} (before : bound ≤ index)
    (inside : index ≤ block.length) :
    (overwrite block index copied).take bound = block.take bound := by
  rw [overwrite, List.append_assoc, List.take_append_of_le_length, List.take_take,
    Nat.min_eq_left before]
  rw [List.length_take]
  omega

/-- Bytes before the write position are not copied over. -/
theorem overwrite_keeps {front back back' : List DataBlock} {block copied : List UInt8}
    {iter index first len : Nat}
    (before : iter < front.length ∨ iter = front.length ∧ first + len ≤ index)
    (inside : index ≤ block.length) :
    ((((front ++ overwrite block index copied :: back')[iter]?).getD []).drop first).take len =
      ((((front ++ block :: back)[iter]?).getD []).drop first).take len := by
  rcases before with earlier | ⟨rfl, covered⟩
  · rw [List.getElem?_append_left earlier, List.getElem?_append_left earlier]
  · rw [List.getElem?_append_right (Nat.le_refl _), List.getElem?_append_right (Nat.le_refl _),
      Nat.sub_self, List.getElem?_cons_zero, List.getElem?_cons_zero, Option.getD_some,
      Option.getD_some, List.take_drop, List.take_drop, take_overwrite covered inside]

theorem adjustIndexLoop_forward {blocks : List DataBlock} {iter len i j : Nat}
    (found : AsioBuffer.adjustIndexLoop blocks iter len = some (i, j)) : iter ≤ i := by
  induction blocks generalizing iter len with
  | nil => cases found
  | cons block more ih =>
      rw [AsioBuffer.adjustIndexLoop] at found
      split at found
      · exact Nat.le_of_succ_le (ih found)
      · cases found
        exact Nat.le_refl _

/-- The write position moves forward. -/
theorem advanceWrite_forward {s f : AsioBuffer} {len : Nat} (done : s.advanceWrite len = some f) :
    f.buffer = s.buffer ∧ f.readBufferIter = s.readBufferIter ∧
      (s.writeBufferIter < f.writeBufferIter ∨
        f.writeBufferIter = s.writeBufferIter ∧ s.writeIndex ≤ f.writeIndex) := by
  obtain ⟨⟨i, j⟩, found, rfl⟩ := Option.map_eq_some_iff.mp done
  refine ⟨rfl, rfl, ?_⟩
  unfold AsioBuffer.adjustIndex at found
  split at found
  · cases found
  · split at found
    · cases found
      exact .inr ⟨rfl, Nat.le_add_right _ _⟩
    · exact .inl (adjustIndexLoop_forward found)

theorem checkActive_active (active : p.state.active = true) : p.checkActive = some p := by
  rw [checkActive, AsioBuffer.checkActive_active active, Option.map_some, if_pos active]

/-- What an append that returns has done. -/
theorem append_cases {data : List UInt8} (done : p.append data = some q) :
    ∃ start adjusted stored state, p.checkActive = some start ∧
      start.adjustBuffer data.length = some adjusted ∧
      AsioBuffer.appendCopy adjusted.state.buffer adjusted.state.writeBufferIter
        adjusted.state.writeIndex data = some stored ∧
      AsioBuffer.advanceWrite { adjusted.state with buffer := stored } data.length = some state ∧
      q = { adjusted with state } := by
  obtain ⟨start, activated, done⟩ := Option.bind_eq_some_iff.mp done
  obtain ⟨adjusted, adjust, done⟩ := Option.bind_eq_some_iff.mp done
  obtain ⟨stored, copy, done⟩ := Option.bind_eq_some_iff.mp done
  obtain ⟨state, advance, done⟩ := Option.bind_eq_some_iff.mp done
  cases done
  exact ⟨start, adjusted, stored, state, activated, adjust, copy, advance, rfl⟩

/-- A node at or behind the read position, and its block, move to the front. -/
theorem Slides.there {first : Nat} (slides : Slides p q) (placed : Placed first p)
    (placed' : Placed first q) {iter : Nat} (behind : p.state.readBufferIter ≤ iter)
    (known : iter < p.places.length)
    (short : iter - p.state.readBufferIter < q.state.buffer.length) :
    q.places[iter - p.state.readBufferIter]? = p.places[iter]? ∧
      q.state.buffer[iter - p.state.readBufferIter]? = p.state.buffer[iter]? := by
  obtain ⟨more, places⟩ := slides.places
  obtain ⟨rest, blocks⟩ := slides.buffer
  have there := Nat.add_sub_cancel' behind
  have shortPlaces : iter - p.state.readBufferIter < q.places.length := by
    rw [placed'.paired]
    exact short
  have place := getElem?_slid places shortPlaces (there.symm ▸ known)
  have block := getElem?_slid blocks short (there.symm ▸ placed.paired ▸ known)
  rw [there] at place block
  exact ⟨place, block⟩

/-- A segment in flight survives an append: its block moves to another node
with the bytes that it covers. -/
theorem append_shows {first : Nat} (placed : Placed first p) (layout : p.state.Layout)
    (active : p.state.active = true) {data : List UInt8} (done : p.append data = some q)
    {segment : Nat × Nat × Nat} {bytes : List UInt8} {iter : Nat}
    (shows : Shows p segment bytes iter) : ∃ iter', Shows q segment bytes iter' := by
  obtain ⟨start, adjusted, stored, state, activated, adjust, copy, advance, rfl⟩ :=
    append_cases done
  rw [checkActive_active active, Option.some.injEq] at activated
  subst activated
  have slides := adjustBuffer_slides adjust
  have placed' := placed.adjustBuffer adjust
  obtain ⟨front, block, back, back', copied, split, length, _, rfl⟩ := appendCopy_keeps copy
  obtain ⟨buffer, readIter, forward⟩ := advanceWrite_forward advance
  dsimp only at buffer readIter forward
  obtain ⟨behind, before⟩ := shows.unread
  obtain ⟨known, _⟩ := List.getElem?_eq_some_iff.mp shows.place
  have turned := slides.writeIter
  have index := slides.writeIndex
  have stays : adjusted.state.writeBufferIter < adjusted.state.buffer.length := by
    rw [split, List.length_append, List.length_cons]
    omega
  obtain ⟨place, same⟩ := slides.there placed placed' behind known (by omega)
  refine ⟨iter - p.state.readBufferIter, place.trans shows.place, ⟨?_, ?_⟩, ?_⟩
  · rw [readIter, slides.readIter]
    exact Nat.zero_le _
  · dsimp only
    omega
  · rw [← shows.bytes, ← same]
    dsimp only
    -- the block of the write position is the one that is copied into
    obtain ⟨last, named, room⟩ := layout.write.block
    have inside : p.state.writeBufferIter < p.places.length :=
      placed.paired ▸ layout.write.iter_lt
    have lastBlock := (slides.there placed placed' layout.iter_le inside (by omega)).2
    rw [← turned, Nat.add_sub_cancel, turned, named, split, ← length,
      List.getElem?_append_right (Nat.le_refl _), Nat.sub_self, List.getElem?_cons_zero,
      Option.some.injEq] at lastBlock
    rw [buffer, split]
    refine overwrite_keeps (by omega) ?_
    rw [lastBlock, index]
    exact Nat.le_of_lt room

/-! ## Any number of appends -/

/-- Whatever holds of the addresses once the buffer is active holds behind the append. -/
theorem append_start {data : List UInt8} (done : p.append data = some q) :
    ∃ start, p.checkActive = some start ∧ ∀ first, Placed first start → Placed first q := by
  obtain ⟨start, adjusted, stored, state, activated, adjust, copy, advance, rfl⟩ :=
    append_cases done
  refine ⟨start, activated, fun first placed => (placed.adjustBuffer adjust).withState ?_⟩
  rw [(advanceWrite_forward advance).1]
  exact appendCopy_length copy

theorem hasWritten_start {len : Nat} (done : p.hasWritten len = some q) :
    ∃ start, p.checkActive = some start ∧ ∀ first, Placed first start → Placed first q := by
  unfold hasWritten at done
  split at done
  · obtain ⟨start, activated, done⟩ := Option.bind_eq_some_iff.mp done
    refine ⟨start, activated, fun first placed => ?_⟩
    obtain ⟨adjusted, adjust, done⟩ := Option.bind_eq_some_iff.mp done
    obtain ⟨state, advance, done⟩ := Option.bind_eq_some_iff.mp done
    cases done
    refine (placed.adjustBuffer adjust).withState ?_
    rw [(advanceWrite_forward advance).1]
  · cases done

/-- `reset` drops the address of the front block. -/
theorem checkActive_reset {first low : Nat} (placed : Placed first p)
    (inactive : p.state.active = false) (rest : ∀ place ∈ p.places.drop 1, low ≤ place)
    (bound : low ≤ p.allocations) (done : p.checkActive = some q) : Placed low q := by
  obtain ⟨state, activated, rfl⟩ := Option.map_eq_some_iff.mp done
  rw [inactive, if_neg Bool.false_ne_true]
  have distinct := placed.distinct.sublist (List.drop_sublist 1 p.places)
  have below (place : Nat) (member : place ∈ p.places.drop 1) : place < p.allocations :=
    placed.below place (List.mem_of_mem_drop member)
  refine ⟨?_, ?_, ?_, ?_, Nat.le_add_right_of_le bound⟩
  · have paired := placed.paired
    unfold AsioBuffer.checkActive at activated
    rw [inactive, if_neg Bool.false_ne_true] at activated
    split at activated
    · next byte bytes more buffer =>
        cases activated
        rw [buffer] at paired
        simp only [List.length_append, List.length_cons, List.length_drop, List.length_nil]
        rw [paired, List.length_cons, Nat.add_sub_cancel]
    · cases activated
  · refine List.nodup_append.mpr ⟨List.nodup_cons.mpr ⟨?_, distinct⟩, by simp, ?_⟩
    · exact fun member => Nat.lt_irrefl _ (below _ member)
    · intro place member new last
      rw [List.mem_singleton.mp last]
      rcases List.mem_cons.mp member with rfl | old
      · exact Nat.ne_of_lt (Nat.lt_succ_self _)
      · exact Nat.ne_of_lt (Nat.lt_succ_of_lt (below place old))
  · intro place member
    rcases List.mem_append.mp member with front | back
    · rcases List.mem_cons.mp front with rfl | old
      · exact bound
      · exact rest place old
    · rw [List.mem_singleton.mp back]
      exact Nat.le_succ_of_le bound
  · intro place member
    rcases List.mem_append.mp member with front | back
    · rcases List.mem_cons.mp front with rfl | old
      · exact Nat.lt_add_of_pos_right Nat.two_pos
      · exact Nat.lt_add_right 2 (below place old)
    · rw [List.mem_singleton.mp back]
      exact Nat.lt_succ_self _

theorem checkActive_placed {first : Nat} (placed : Placed first p)
    (done : p.checkActive = some q) : Placed first q := by
  cases active : p.state.active with
  | true =>
      rw [checkActive_active active] at done
      cases done
      exact placed
  | false =>
      exact checkActive_reset placed active
        (fun place member => placed.low place (List.mem_of_mem_drop member)) placed.allocated done

theorem append_placed {first : Nat} (placed : Placed first p) {data : List UInt8}
    (done : p.append data = some q) : Placed first q := by
  obtain ⟨start, activated, kept⟩ := append_start done
  exact kept first (checkActive_placed placed activated)

/-- An append of the placed buffer is defined when that of the block buffer is. -/
theorem append_of_state {data : List UInt8} {f : AsioBuffer} (done : p.state.append data = some f) :
    ∃ q, p.append data = some q ∧ q.state = f := by
  rw [← append_state] at done
  exact Option.map_eq_some_iff.mp done

theorem state_of_append {data : List UInt8} (done : p.append data = some q) :
    p.state.append data = some q.state := by
  rw [← append_state, done, Option.map_some]

/-- Appends that fit leave every segment in flight where it was. -/
theorem appends_show {first : Nat} (placed : Placed first p) (layout : p.state.Layout)
    (active : p.state.active = true) {appends : List (List UInt8)}
    (fit : AppendsFit p.state appends) :
    ∃ q, last append p appends = some q ∧ Placed first q ∧ q.state.Layout ∧
      q.state.content = p.state.content ++ appends.flatten ∧
      ∀ segment bytes iter, Shows p segment bytes iter → ∃ iter', Shows q segment bytes iter' := by
  induction appends generalizing p with
  | nil =>
      refine ⟨p, rfl, placed, layout, (List.append_nil _).symm, ?_⟩
      exact fun _ _ iter shows => ⟨iter, shows⟩
  | cons data rest ih =>
      obtain ⟨head, tail⟩ := fit trivial
      obtain ⟨f, appended, wrote, bytes⟩ :=
        AsioBuffer.append_some layout active (head _ rfl active)
      obtain ⟨middle, done, rfl⟩ := append_of_state appended
      have step : p.state.Performs (.append data) middle.state :=
        ⟨[], by rw [AsioBuffer.perform, appended]; rfl⟩
      obtain ⟨q, run, placed', layout', content, kept⟩ :=
        ih (append_placed placed done) wrote.layout wrote.active (tail _ step)
      refine ⟨q, ?_, placed', layout', ?_, ?_⟩
      · rw [last, done]
        exact run
      · rw [content, bytes, List.flatten_cons, List.append_assoc]
      · intro segment shown iter shows
        obtain ⟨iter', moved⟩ := append_shows placed layout active done shows
        exact kept segment shown iter' moved

/-- Appends that all return have found room. -/
theorem fit_of_appends (layout : p.state.Layout) (active : p.state.active = true)
    {appends : List (List UInt8)} (run : last append p appends = some q) :
    AppendsFit p.state appends := by
  induction appends generalizing p with
  | nil => trivial
  | cons data rest ih =>
      obtain ⟨middle, done, run⟩ := Option.bind_eq_some_iff.mp run
      have appended := state_of_append done
      have performed : p.state.perform (.append data) = some (middle.state, []) := by
        rw [AsioBuffer.perform, appended, Option.map_some]
      have fits : p.state.WriteFits (.append data) :=
        AsioBuffer.fits_of_perform layout trivial performed
      obtain ⟨f, again, wrote, _⟩ := AsioBuffer.append_some layout active (fits _ rfl active)
      rw [appended, Option.some.injEq] at again
      subst again
      refine fun _ => ⟨fits, fun f step => ?_⟩
      obtain ⟨out, other⟩ := step
      rw [performed, Option.some.injEq, Prod.mk.injEq] at other
      rw [← other.1]
      exact ih wrote.layout wrote.active run

/-! ## Reachable states -/

/-- What holds of every reachable buffer. -/
structure Sound (p : PlacedBuffer) : Prop where
  placed : Placed 0 p
  state : p.state.Sound

theorem create_sound (initialSize : Nat) : Sound (create initialSize) where
  placed := ⟨rfl, by simp [create], fun _ _ => Nat.zero_le _, by simp [create], Nat.zero_le _⟩
  state := AsioBuffer.create_sound initialSize

theorem fillSegments_length (segments : List (Nat × Nat × Nat)) (data : List UInt8)
    (buffer : List DataBlock) :
    (AsioBuffer.fillSegments segments data buffer).length = buffer.length := by
  induction segments generalizing data buffer with
  | nil => rfl
  | cons segment rest ih => rw [AsioBuffer.fillSegments, ih, List.length_modify]

theorem fillMutable_length (s : AsioBuffer) (data : List UInt8) :
    (s.fillMutable data).buffer.length = s.buffer.length :=
  fillSegments_length _ _ _

theorem retrieve_buffer {s f : AsioBuffer} {len : Nat} {invoked : Bool}
    (done : s.retrieve len = some (f, invoked)) : f.buffer = s.buffer := by
  unfold AsioBuffer.retrieve at done
  split at done
  · obtain ⟨position, _, result⟩ := Option.map_eq_some_iff.mp done
    dsimp only at result
    split at result
    · cases result
      rfl
    · cases result
      rfl
  · cases done

theorem perform_placed {first : Nat} (placed : Placed first p) {call : Call}
    (done : p.perform call = some q) : Placed first q := by
  cases call with
  | operation op =>
      cases op with
      | append data => exact append_placed placed done
      | hasWritten data =>
          obtain ⟨start, activated, kept⟩ := hasWritten_start done
          have filled := placed.withState (fillMutable_length p.state data)
          exact kept first (checkActive_placed filled activated)
      | peek len =>
          obtain ⟨_, _, rfl⟩ := Option.map_eq_some_iff.mp done
          exact placed
      | read len =>
          obtain ⟨⟨state, data⟩, read, rfl⟩ := Option.map_eq_some_iff.mp done
          obtain ⟨_, _, rest⟩ := Option.bind_eq_some_iff.mp read
          obtain ⟨⟨f, invoked⟩, retrieved, same⟩ := Option.bind_eq_some_iff.mp rest
          cases same
          exact placed.withState (congrArg List.length (retrieve_buffer retrieved))
      | retrieve len =>
          obtain ⟨⟨state, invoked⟩, retrieved, rfl⟩ := Option.map_eq_some_iff.mp done
          exact placed.withState (congrArg List.length (retrieve_buffer retrieved))
  | setNotifyBehindHighWaterMask mask =>
      cases done
      exact placed.withState rfl

theorem performs_sound (sound : Sound p) {call : Call} (admissible : p.Admissible call)
    (step : p.Performs call q) : Sound q := by
  refine ⟨perform_placed sound.placed step, ?_⟩
  cases call with
  | operation op =>
      have erased := perform_state p op
      rw [step, Option.map_some] at erased
      obtain ⟨⟨f, out⟩, performed, same⟩ := Option.map_eq_some_iff.mp erased.symm
      rw [← same]
      exact AsioBuffer.performs_sound sound.state admissible ⟨out, performed⟩
  | setNotifyBehindHighWaterMask mask =>
      cases step
      rcases sound.state with layout | blank
      · exact .inl (AsioBuffer.setNotify_layout layout mask)
      · exact .inr { blank with }

theorem reached_sound {initialSize : Nat} {calls : List Call}
    (reached : Reached Admissible Performs (create initialSize) calls p) : Sound p :=
  reached.invariant_all (fun _ _ _ sound ok step => performs_sound sound ok step)
    (create_sound initialSize)

/-! ## Segments in flight -/

/-- A segment of `const_buffer()` names a node of the list. -/
theorem constBuffer_place {first : Nat} (placed : Placed first p) (layout : p.state.Layout)
    {iter index len : Nat} (named : (iter, index, len) ∈ p.state.constBuffer) :
    p.places[iter]? = some (p.places.getD iter 0) := by
  have behind := (constBuffer_unread layout named).before
  have bound := layout.write.iter_lt
  have inside : iter < p.places.length := by
    rw [placed.paired]
    omega
  rw [List.getD_eq_getElem?_getD, List.getElem?_eq_getElem inside, Option.getD_some]

theorem constBuffer_shows {first : Nat} (placed : Placed first p) (layout : p.state.Layout)
    {segment : Nat × Nat × Nat} (member : segment ∈ p.constBuffer) :
    ∃ iter, Shows p segment (p.segmentBytes segment) iter := by
  obtain ⟨⟨iter, index, len⟩, named, rfl⟩ := List.mem_map.mp member
  have place := constBuffer_place placed layout named
  refine ⟨iter, place, constBuffer_unread layout named, ?_⟩
  rw [segmentBytes, placed.blockAt place]

theorem Shows.there {first iter : Nat} {segment : Nat × Nat × Nat} {bytes : List UInt8}
    (shows : Shows p segment bytes iter) (placed : Placed first p) :
    segment.1 ∈ p.places ∧ p.segmentBytes segment = bytes := by
  refine ⟨List.mem_of_getElem? shows.place, ?_⟩
  rw [segmentBytes, placed.blockAt shows.place]
  exact shows.bytes

theorem constBuffer_content {first : Nat} (placed : Placed first p) (layout : p.state.Layout) :
    p.constBuffer.flatMap p.segmentBytes = p.state.content := by
  rw [← AsioBuffer.constBuffer_bytes layout, constBuffer, List.flatMap_map,
    AsioBuffer.segmentBytes, List.flatMap_def, List.flatMap_def]
  refine congrArg List.flatten (List.map_congr_left fun segment named => ?_)
  obtain ⟨iter, index, len⟩ := segment
  have place := constBuffer_place placed layout named
  rw [segmentBytes, placed.blockAt place]
  dsimp only
  rw [List.getD_eq_getElem?_getD]

/-! ## When the bytes in flight are stable -/

theorem sendStable_of_fit (sound : Sound p) (active : p.state.active = true)
    {appends : List (List UInt8)} (fit : AppendsFit p.state appends) : p.SendStable appends := by
  have layout := sound.state.layout active
  obtain ⟨q, run, placed, layout', content, kept⟩ :=
    appends_show sound.placed layout active fit
  refine ⟨q, run, fun segment member => ?_, ?_⟩
  · obtain ⟨iter, shows⟩ := constBuffer_shows sound.placed layout member
    obtain ⟨iter', moved⟩ := kept _ _ _ shows
    exact moved.there placed
  · rw [constBuffer_content placed layout', constBuffer_content sound.placed layout, content]

/-- The segment of an inactive buffer is empty and names the fake block. -/
theorem inactive_constBuffer (sound : Sound p) (inactive : p.state.active = false) :
    ∃ place, p.places = [place] ∧
      p.constBuffer = [(place, p.state.readIndex, p.state.writeIndex - p.state.readIndex)] := by
  obtain ⟨fake, readIter, writeIter⟩ := sound.state.inactive inactive
  have length : p.places.length = 1 := by
    rw [sound.placed.paired, ← List.length_map (f := List.length), fake]
    rfl
  obtain ⟨place, places⟩ := List.length_eq_one_iff.mp length
  refine ⟨place, places, ?_⟩
  rw [constBuffer, AsioBuffer.constBuffer, readIter, writeIter, if_pos rfl, places]
  rfl

theorem sendStable_nil (sound : Sound p) : p.SendStable [] := by
  refine ⟨p, rfl, fun segment member => ⟨?_, rfl⟩, (List.append_nil _).symm⟩
  cases active : p.state.active with
  | true =>
      have layout := sound.state.layout active
      obtain ⟨iter, shows⟩ := constBuffer_shows sound.placed layout member
      exact (shows.there sound.placed).1
  | false =>
      obtain ⟨place, places, segments⟩ := inactive_constBuffer sound active
      rw [segments] at member
      rw [List.mem_singleton.mp member, places]
      exact List.mem_singleton_self _

/-- The first append frees the fake block. -/
theorem not_sendStable_first (sound : Sound p) (inactive : p.state.active = false)
    (data : List UInt8) (rest : List (List UInt8)) : ¬ p.SendStable (data :: rest) := by
  rintro ⟨q, run, kept, _⟩
  obtain ⟨place, places, segments⟩ := inactive_constBuffer sound inactive
  obtain ⟨middle, done, run⟩ := Option.bind_eq_some_iff.mp run
  obtain ⟨start, activated, after⟩ := append_start done
  have reset : Placed p.allocations start :=
    checkActive_reset sound.placed inactive (by simp [places]) (Nat.le_refl _) activated
  have placed : Placed p.allocations q :=
    (reached_last run).invariant_all (fun _ _ _ placed _ step => append_placed placed step)
      (after _ reset)
  have still := (kept _ (segments ▸ List.mem_singleton_self _)).1
  have old : place ∈ p.places := places ▸ List.mem_singleton_self _
  exact absurd (placed.low place still) (Nat.not_le.mpr (sound.placed.below place old))

/-- The bytes that a reachable buffer has handed to the socket are stable under
further appends if and only if there are none, or the buffer has been written
to before and each of them fits into the blocks that `adjust_buffer` leaves. -/
theorem sendStable_iff {initialSize : Nat} {calls : List Call}
    (reached : Reached Admissible Performs (create initialSize) calls p)
    (appends : List (List UInt8)) :
    p.SendStable appends ↔
      appends = [] ∨ p.state.active = true ∧ AppendsFit p.state appends := by
  have sound := reached_sound reached
  cases appends with
  | nil => exact iff_of_true (sendStable_nil sound) (.inl rfl)
  | cons data rest =>
      constructor
      · intro stable
        cases active : p.state.active with
        | true =>
            obtain ⟨q, run, _⟩ := stable
            exact .inr ⟨rfl, fit_of_appends (sound.state.layout active) active run⟩
        | false => exact absurd stable (not_sendStable_first sound active data rest)
      · rintro (none | ⟨active, fit⟩)
        · cases none
        · exact sendStable_of_fit sound active fit

/-- A write of 600 bytes of which 550 have been sent: the first block is read. -/
def sentRun : List Call :=
  [.operation (.append (List.replicate 600 7)), .operation (.retrieve 550)]

theorem sentRun_sendStable : ∃ p, last perform (create kInitialSize) sentRun = some p ∧
    p.state.readableBytes = 50 ∧ p.SendStable [[1, 2], List.replicate 1000 3] := by
  have reaches : (last perform (create kInitialSize) sentRun).any (fun p =>
      p.state.readableBytes == 50 && p.state.active &&
        (last append p [[1, 2], List.replicate 1000 3]).isSome) = true := by
    decide +kernel
  have valid : holdsAlong perform Admissible (create kInitialSize) sentRun = true := by
    decide +kernel
  obtain ⟨p, run, facts⟩ := (Option.any_eq_true _ _).mp reaches
  rw [Bool.and_eq_true, Bool.and_eq_true, beq_iff_eq, Option.isSome_iff_exists] at facts
  obtain ⟨⟨readable, active⟩, q, appended⟩ := facts
  have reached := reached_of_holdsAlong valid run
  have layout := (reached_sound reached).state.layout active
  have fit := fit_of_appends layout active appended
  exact ⟨p, run, readable, (sendStable_iff reached _).mpr (.inr ⟨active, fit⟩)⟩

/-- After ten counts of low use `adjust_buffer` takes off a block that
`writable_bytes_` still counts, and the next append runs past the end while the
bytes before it are in flight. -/
theorem lowUseRun_not_sendStable :
    ¬ ∀ (initialSize : Nat) (calls : List Call) (p : PlacedBuffer),
      Reached Admissible Performs (create initialSize) calls p →
        ∀ appends, p.SendStable appends := by
  intro all
  have failing : (last perform (create kInitialSize)
      (AsioBuffer.lowUseRun.map .operation)).any
        (fun p => (p.append (List.replicate 53 2)).isNone) = true := by
    decide +kernel
  have valid : holdsAlong perform Admissible (create kInitialSize)
      (AsioBuffer.lowUseRun.map .operation) = true := by
    decide +kernel
  obtain ⟨p, run, undefined⟩ := (Option.any_eq_true _ _).mp failing
  obtain ⟨q, appended, _⟩ :=
    all _ _ p (reached_of_holdsAlong valid run) [List.replicate 53 2]
  rw [last, Option.isNone_iff_eq_none.mp undefined] at appended
  cases appended

end FysobEngine.Net.PlacedBuffer
