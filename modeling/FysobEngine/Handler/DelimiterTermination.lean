import FysobEngine.Handler.DelimiterDecoder

/-!
# Termination of the delimiter decoder

The loop of `decode` leaves only with an empty buffer. It ends when the bytes
at hand are nothing but complete frames, and spins on anything else.
-/

namespace FysobEngine.Handler.Delimiter

open Net

namespace DelimiterBasedFrameDecoder

variable (smallEndian : Bool) (cfg : DelimiterBasedFrameDecoder)

/-- The bytes that a frame and its delimiter take off the buffer. -/
def cutBytes (position : Int32) (delim : List UInt8) : Nat :=
  if cfg.stripDelimiter then toSize position + toSize (Int32.ofNat delim.length)
  else toSize (position + Int32.ofNat delim.length)

/-- The message that is fired for a cut. -/
def cutData (buf : List UInt8) (position : Int32) (delim : List UInt8) : List UInt8 :=
  if cfg.stripDelimiter then buf.take (toSize position)
  else buf.take (cfg.cutBytes position delim)

/-- The buffer is a sequence of complete frames, each cut at the nearest
delimiter that occurs no later than the maximum. -/
inductive Complete : List UInt8 → Prop where
  | empty : Complete []
  | cut {buf : List UInt8} {position : Int32} {delim : List UInt8}
      (cuts : cfg.CutsAt smallEndian buf position delim)
      (bytes : 1 ≤ cfg.cutBytes position delim)
      (whole : cfg.cutBytes position delim ≤ buf.length)
      (later : Complete (buf.drop (cfg.cutBytes position delim))) : Complete buf

variable {smallEndian cfg}

/-! ## The nearest delimiter -/

/-- A search that finds nothing nearer returns what it started with. -/
theorem nearest_keeps {buf : List UInt8} {delims : List (List UInt8)} {position : Int32}
    {delim : List UInt8}
    (farther : ∀ other ∈ delims, ∀ place, indexOf smallEndian buf other = .ok place →
      place < 0 ∨ position ≤ place) :
    nearest smallEndian buf delims position delim = .ok (position, delim) := by
  induction delims with
  | nil => rfl
  | cons first rest ih =>
      obtain ⟨place, found⟩ := indexOf_ok smallEndian buf first
      have away := farther first List.mem_cons_self place found
      have later := ih fun other member => farther other (List.mem_cons_of_mem first member)
      rw [nearest, found]
      dsimp only [bind, Except.bind]
      rw [if_neg, later]
      rintro ⟨inside, nearer⟩
      rcases away with before | behind
      · exact Int32.not_le.mpr before inside
      · exact Int32.not_le.mpr nearer behind

/-- The nearest delimiter is found, whatever the search starts with above it. -/
theorem Nearest.found {buf : List UInt8} {delims : List (List UInt8)} {start position : Int32}
    {delim : List UInt8} (near : Nearest smallEndian buf delims start position delim)
    (startDelim : List UInt8) :
    nearest smallEndian buf delims start startDelim = .ok (position, delim) := by
  obtain ⟨found, inside, below, before, after, rfl, first, farther⟩ := near
  induction before generalizing start startDelim with
  | nil =>
      rw [List.nil_append, nearest, found]
      dsimp only [bind, Except.bind]
      rw [if_pos ⟨inside, below⟩]
      exact nearest_keeps farther
  | cons other rest ih =>
      obtain ⟨place, seen⟩ := indexOf_ok smallEndian buf other
      have later := fun another member => first another (List.mem_cons_of_mem other member)
      rw [List.cons_append, nearest, seen]
      dsimp only [bind, Except.bind]
      split
      · next nearer =>
          rcases first other List.mem_cons_self place seen with outside | behind
          · exact absurd nearer.1 (Int32.not_le.mpr outside)
          · exact ih other behind later
      · exact ih startDelim below later

/-- A delimiter in front of the nearest one that is not as near. -/
theorem Nearest.past {buf : List UInt8} {first : List UInt8} {rest : List (List UInt8)}
    {start start' position place : Int32} {delim : List UInt8}
    (near : Nearest smallEndian buf rest start' position delim) (below : position < start)
    (seen : indexOf smallEndian buf first = .ok place)
    (outside : place < 0 ∨ position < place) :
    Nearest smallEndian buf (first :: rest) start position delim := by
  obtain ⟨found, inside, _, before, after, rfl, ahead, farther⟩ := near
  refine ⟨found, inside, below, first :: before, after, rfl, ?_, farther⟩
  intro other member spot same
  rcases List.mem_cons.mp member with rfl | member
  · rw [seen, Except.ok.injEq] at same
    exact same ▸ outside
  · exact ahead other member spot same

/-- The search returns what it started with or the nearest delimiter. -/
theorem nearest_cases (buf : List UInt8) (delims : List (List UInt8)) (start : Int32)
    (startDelim : List UInt8) :
    nearest smallEndian buf delims start startDelim = .ok (start, startDelim) ∧
        (∀ other ∈ delims, ∀ place, indexOf smallEndian buf other = .ok place →
          place < 0 ∨ start ≤ place) ∨
      ∃ position delim, Nearest smallEndian buf delims start position delim := by
  induction delims generalizing start startDelim with
  | nil => exact .inl ⟨rfl, fun _ member => by cases member⟩
  | cons first rest ih =>
      obtain ⟨place, seen⟩ := indexOf_ok smallEndian buf first
      rw [nearest, seen]
      dsimp only [bind, Except.bind]
      split
      · next nearer =>
          rcases ih place first with ⟨_, farther⟩ | ⟨position, delim, near⟩
          · refine .inr ⟨place, first, seen, nearer.1, nearer.2, [], rest, rfl, ?_, farther⟩
            intro _ member
            cases member
          · have below := near.2.2.1
            exact .inr ⟨position, delim,
              near.past (Int32.lt_trans below nearer.2) seen (.inr below)⟩
      · next away =>
          have outside : place < 0 ∨ start ≤ place := by
            by_cases inside : 0 ≤ place
            · exact .inr (Int32.not_lt.mp fun nearer => away ⟨inside, nearer⟩)
            · exact .inl (Int32.not_le.mp inside)
          rcases ih start startDelim with ⟨kept, farther⟩ | ⟨position, delim, near⟩
          · refine .inl ⟨kept, ?_⟩
            intro other member spot same
            rcases List.mem_cons.mp member with rfl | member
            · rw [seen, Except.ok.injEq] at same
              exact same ▸ outside
            · exact farther other member spot same
          · have below := near.2.2.1
            exact .inr ⟨position, delim, near.past below seen
              (outside.imp_right (Int32.lt_of_lt_of_le below))⟩

/-! ## One turn -/

/-- The ceiling is one above the maximum, as far as an `int` goes. -/
theorem toInt_ceiling_cases (cfg : DelimiterBasedFrameDecoder) :
    cfg.maxFrameLength.toNat < 2 ^ 31 - 1 ∧ cfg.ceiling.toInt = cfg.maxFrameLength.toNat + 1 ∨
      2 ^ 31 - 1 ≤ cfg.maxFrameLength.toNat ∧ cfg.ceiling.toInt ≤ 0 := by
  have bound := cfg.maxFrameLength.toNat_lt
  have value : cfg.ceiling.toInt = if 2 * (cfg.maxFrameLength + 1).toNat < 2 ^ 32 then
      ((cfg.maxFrameLength + 1).toNat : Int) else (cfg.maxFrameLength + 1).toNat - 2 ^ 32 :=
    BitVec.toInt_eq_toNat_cond (cfg.maxFrameLength + 1).toBitVec
  have sum : (cfg.maxFrameLength + 1).toNat = (cfg.maxFrameLength.toNat + 1) % 2 ^ 32 :=
    UInt32.toNat_add _ _
  split at value <;> omega

/-- A position below the ceiling is not above the maximum. -/
theorem not_above {position : Int32} (inside : 0 ≤ position) (below : position < cfg.ceiling) :
    ¬ position.toUInt32 > cfg.maxFrameLength := by
  have bits := position.toUInt32.toNat_lt
  have value : position.toInt = if 2 * position.toUInt32.toNat < 2 ^ 32 then
      (position.toUInt32.toNat : Int) else position.toUInt32.toNat - 2 ^ 32 :=
    BitVec.toInt_eq_toNat_cond position.toBitVec
  have limit := toInt_ceiling_cases cfg
  rw [Int32.le_iff_toInt_le] at inside
  rw [Int32.lt_iff_toInt_lt] at below
  rw [gt_iff_lt, UInt32.lt_iff_toNat_lt]
  change 0 ≤ position.toInt at inside
  split at value <;> omega

theorem CutsAt.delim_ne_nil {buf : List UInt8} {position : Int32} {delim : List UInt8}
    (cuts : cfg.CutsAt smallEndian buf position delim) : delim ≠ [] := by
  obtain ⟨_, _, _, before, after, listed, _⟩ := cuts
  apply cfg.validated
  rw [listed]
  exact List.mem_append_right before List.mem_cons_self

/-- A turn that cuts fires the frame and takes it off with its delimiter. -/
theorem turn_cut {buf : List UInt8} {position : Int32} {delim : List UInt8}
    (cuts : cfg.CutsAt smallEndian buf position delim)
    (whole : cfg.cutBytes position delim ≤ buf.length) :
    cfg.turn smallEndian buf =
      .ok (.frame (cfg.cutData buf position delim) (cfg.cutBytes position delim),
        buf.drop (cfg.cutBytes position delim)) := by
  have named := cuts.delim_ne_nil
  have allowed := not_above cuts.2.1 cuts.2.2.1
  rw [turn, Nearest.found cuts []]
  dsimp only [bind, Except.bind]
  rw [if_pos named, if_neg allowed]
  unfold cutData cutBytes
  unfold cutBytes at whole
  split at whole
  · next strips =>
      have first : toSize position ≤ buf.length := by omega
      have second : toSize (Int32.ofNat delim.length) ≤
          (buf.drop (toSize position)).length := by
        rw [List.length_drop]
        omega
      rw [if_pos strips, if_pos strips, if_pos strips, ByteQueue.read_some first]
      dsimp only [orAssert]
      rw [ByteQueue.retrieve_some second, List.drop_drop]
  · next keeps =>
      rw [if_neg keeps, if_neg keeps, if_neg keeps, ByteQueue.read_some whole]
      rfl

/-- A frame that is not whole runs into an assertion. -/
theorem turn_short {buf : List UInt8} {position : Int32} {delim : List UInt8}
    (cuts : cfg.CutsAt smallEndian buf position delim)
    (short : ¬ cfg.cutBytes position delim ≤ buf.length) :
    cfg.turn smallEndian buf = .error .assertion := by
  have named := cuts.delim_ne_nil
  have allowed := not_above cuts.2.1 cuts.2.2.1
  rw [turn, Nearest.found cuts []]
  dsimp only [bind, Except.bind]
  rw [if_pos named, if_neg allowed]
  unfold cutBytes at short
  split at short
  · next strips =>
      rw [if_pos strips]
      by_cases first : toSize position ≤ buf.length
      · have second : ¬ toSize (Int32.ofNat delim.length) ≤
            (buf.drop (toSize position)).length := by
          rw [List.length_drop]
          omega
        rw [ByteQueue.read_some first]
        dsimp only [orAssert]
        rw [ByteQueue.retrieve, if_neg second]
      · rw [ByteQueue.read, ByteQueue.peek, if_neg first]
        rfl
  · next keeps =>
      rw [if_neg keeps, ByteQueue.read, ByteQueue.peek, if_neg short]
      rfl

/-- Without a delimiter below the ceiling a turn does nothing and stays in the loop. -/
theorem turn_nothing {buf : List UInt8}
    (uncut : ¬ ∃ position delim, cfg.CutsAt smallEndian buf position delim) :
    cfg.turn smallEndian buf = .ok (.nothing, buf) := by
  rcases nearest_cases buf cfg.delimiters cfg.ceiling [] with ⟨kept, _⟩ | cuts
  · rw [turn, kept]
    rfl
  · exact absurd cuts uncut

/-! ## The loop -/

theorem decodeLoop_again (turns : Nat) {buf rest : List UInt8} {outcome : Outcome}
    (nonempty : buf.length ≠ 0) (turned : cfg.turn smallEndian buf = .ok (outcome, rest))
    (again : outcome.again = true) :
    cfg.decodeLoop smallEndian (turns + 1) buf =
      (cfg.decodeLoop smallEndian turns rest).map
        fun (outcomes, ending) => (outcome :: outcomes, ending) := by
  rw [decodeLoop, if_neg nonempty, turned]
  dsimp only
  rw [if_pos again]

/-- A loop that goes on behind a turn and ends also ends from there. -/
theorem decodeLoop_behind {turns : Nat} {buf rest last : List UInt8} {outcome : Outcome}
    {outcomes : List Outcome} (nonempty : buf.length ≠ 0)
    (turned : cfg.turn smallEndian buf = .ok (outcome, rest)) (again : outcome.again = true)
    (ends : cfg.decodeLoop smallEndian (turns + 1) buf = some (outcomes, .ok last)) :
    ∃ later, cfg.decodeLoop smallEndian turns rest = some (later, .ok last) := by
  rw [decodeLoop_again turns nonempty turned again, Option.map_eq_some_iff] at ends
  obtain ⟨⟨later, ending⟩, inner, same⟩ := ends
  dsimp only at same
  rw [Prod.mk.injEq] at same
  obtain ⟨_, rfl⟩ := same
  exact ⟨later, inner⟩

theorem complete_of_decodeLoop {turns : Nat} {buf last : List UInt8} {outcomes : List Outcome}
    (ends : cfg.decodeLoop smallEndian turns buf = some (outcomes, .ok last)) :
    Complete smallEndian cfg buf := by
  induction turns generalizing buf outcomes with
  | zero => cases ends
  | succ turns ih =>
      by_cases nonempty : buf.length = 0
      · rw [List.eq_nil_of_length_eq_zero nonempty]
        exact .empty
      · by_cases cut : ∃ position delim, cfg.CutsAt smallEndian buf position delim
        · obtain ⟨position, delim, cuts⟩ := cut
          by_cases whole : cfg.cutBytes position delim ≤ buf.length
          · have fired := turn_cut cuts whole
            obtain ⟨later, inner⟩ := decodeLoop_behind nonempty fired rfl ends
            have tail := ih inner
            rcases Nat.eq_zero_or_pos (cfg.cutBytes position delim) with none | bytes
            · -- a turn that takes nothing meets the same buffer again
              rw [none] at tail
              exact tail
            · exact .cut cuts bytes whole tail
          · rw [decodeLoop, if_neg nonempty, turn_short cuts whole] at ends
            simp at ends
        · obtain ⟨later, inner⟩ := decodeLoop_behind nonempty (turn_nothing cut) rfl ends
          exact ih inner

theorem Complete.terminates {buf : List UInt8} (complete : Complete smallEndian cfg buf) :
    cfg.Terminates smallEndian buf := by
  induction complete with
  | empty => exact ⟨1, [], [], rfl, fun _ member => by cases member⟩
  | @cut buf position delim cuts bytes whole _ ih =>
      obtain ⟨turns, outcomes, rest, ends, progress⟩ := ih
      have fired := turn_cut cuts whole
      have nonempty : buf.length ≠ 0 := Nat.ne_zero_of_lt (Nat.lt_of_lt_of_le bytes whole)
      let fires := Outcome.frame (cfg.cutData buf position delim) (cfg.cutBytes position delim)
      refine ⟨turns + 1, fires :: outcomes, rest, ?_, ?_⟩
      · rw [decodeLoop_again turns nonempty fired rfl, ends]
        rfl
      · intro outcome member again
        rcases List.mem_cons.mp member with rfl | member
        · exact bytes
        · exact progress outcome member again

/-- `decode` terminates with progress in every turn exactly when the bytes at
hand are a sequence of complete frames. -/
theorem terminates_iff (smallEndian : Bool) (cfg : DelimiterBasedFrameDecoder)
    (buf : List UInt8) : cfg.Terminates smallEndian buf ↔ Complete smallEndian cfg buf := by
  constructor
  · rintro ⟨turns, outcomes, rest, ends, _⟩
    exact complete_of_decodeLoop ends
  · exact Complete.terminates

/-- Lines that end in a line feed. -/
def lines : DelimiterBasedFrameDecoder where
  maxFrameLength := 64
  delimiters := [[10]]
  stripDelimiter := true
  validated := by decide

/-- The first byte of a line makes the loop spin. -/
theorem lines_not_terminates :
    ¬ ∀ (smallEndian : Bool) (cfg : DelimiterBasedFrameDecoder) (buf : List UInt8),
      cfg.delimiters ≠ [] → cfg.Terminates smallEndian buf := by
  intro all
  obtain ⟨turns, outcomes, rest, ends, _⟩ := all true lines [65] (by decide)
  cases complete_of_decodeLoop ends with
  | cut cuts =>
      obtain ⟨found, inside, _, before, after, listed, _⟩ := cuts
      have only : _ ∈ lines.delimiters := listed ▸ List.mem_append_right before List.mem_cons_self
      rw [List.mem_singleton.mp only] at found
      have absent : indexOf true [65] [10] = .ok (-1) := rfl
      rw [absent, Except.ok.injEq] at found
      rw [← found] at inside
      exact absurd inside (by decide)

end DelimiterBasedFrameDecoder

end FysobEngine.Handler.Delimiter
