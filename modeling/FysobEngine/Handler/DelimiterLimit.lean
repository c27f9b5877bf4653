import FysobEngine.Handler.DelimiterReference

/-!
# The maximum of the delimiter decoder

The search begins with `max_frame_length_ + 1` as its least position, an `int`, so
it never finds a delimiter behind the maximum and the branch for one is not reached.
From `INT_MAX` on the least position is not positive and nothing is found at all.
-/

namespace FysobEngine.Handler.Delimiter

open Net Foundation.Occurrences

namespace DelimiterBasedFrameDecoder

variable {smallEndian : Bool} {cfg : DelimiterBasedFrameDecoder}

/-- What becomes of the first delimiter at an index: the frame in front of it is fired
and taken off, or only taken off when it is above the maximum. -/
def Enforces (smallEndian : Bool) (cfg : DelimiterBasedFrameDecoder) (buf : List UInt8)
    (index : Nat) (delim : List UInt8) : Prop :=
  if index ≤ cfg.maxFrameLength.toNat then
    cfg.afterTurns smallEndian 1 buf =
      .ok ([.frame (cfg.message (buf.take index, delim)) (index + delim.length)],
        buf.drop (index + delim.length))
  else
    ∃ turns outcomes,
      cfg.afterTurns smallEndian turns buf = .ok (outcomes, buf.drop (index + delim.length)) ∧
        firedFrames outcomes = []

/-- The search, by positions of type `int`, ends with a cut of the same bytes. -/
def SearchesTo (smallEndian : Bool) (cfg : DelimiterBasedFrameDecoder) (buf : List UInt8)
    (index : Nat) (delim : List UInt8) : Prop :=
  ∃ position other, cfg.CutsAt smallEndian buf position other ∧
    cfg.cutBytes position other = index + delim.length ∧
    cfg.cutData buf position other = cfg.message (buf.take index, delim)

/-- The three ways a turn ends, for any maximum. -/
theorem turn_cases (smallEndian : Bool) (cfg : DelimiterBasedFrameDecoder) (buf : List UInt8) :
    (∃ position delim, cfg.CutsAt smallEndian buf position delim ∧
        (cfg.turn smallEndian buf =
            .ok (.frame (cfg.cutData buf position delim) (cfg.cutBytes position delim),
              buf.drop (cfg.cutBytes position delim)) ∨
          cfg.turn smallEndian buf = .error .assertion)) ∨
      cfg.turn smallEndian buf = .ok (.nothing, buf) := by
  by_cases cut : ∃ position delim, cfg.CutsAt smallEndian buf position delim
  · obtain ⟨position, delim, cuts⟩ := cut
    refine .inl ⟨position, delim, cuts, ?_⟩
    by_cases whole : cfg.cutBytes position delim ≤ buf.length
    · exact .inl (turn_cut cuts whole)
    · exact .inr (turn_short cuts whole)
  · exact .inr (turn_nothing cut)

/-- Nothing is taken off the buffer but fired frames. -/
theorem afterTurns_silent {turns : Nat} {buf rest : List UInt8} {outcomes : List Outcome}
    (done : cfg.afterTurns smallEndian turns buf = .ok (outcomes, rest))
    (silent : firedFrames outcomes = []) : rest = buf := by
  induction turns generalizing outcomes with
  | zero =>
      cases done
      rfl
  | succ turns ih =>
      rw [afterTurns] at done
      split at done
      · cases done
        rfl
      · rcases turn_cases smallEndian cfg buf with
          ⟨position, delim, -, turned | failed⟩ | turned
        · rw [turned] at done
          dsimp only [bind, Except.bind] at done
          rw [if_pos (show Outcome.again (.frame _ _) = true from rfl)] at done
          split at done
          · cases done
          · cases done
            cases silent
        · rw [failed] at done
          cases done
        · rw [turned] at done
          dsimp only [bind, Except.bind] at done
          rw [if_pos (show Outcome.again .nothing = true from rfl)] at done
          split at done
          · cases done
          · next inner same =>
              cases done
              exact ih same silent

/-- A cut leaves a least position to search below. -/
theorem CutsAt.limit {buf : List UInt8} {position : Int32} {delim : List UInt8}
    (cuts : cfg.CutsAt smallEndian buf position delim) :
    cfg.maxFrameLength.toNat < 2 ^ 31 - 1 := by
  obtain ⟨-, inside, below, -⟩ := cuts
  obtain ⟨limit, -⟩ | ⟨-, none⟩ := toInt_ceiling_cases cfg
  · exact limit
  · rw [Int32.le_iff_toInt_le] at inside
    rw [Int32.lt_iff_toInt_lt] at below
    change 0 ≤ position.toInt at inside
    omega

section Cut

variable {buf delim : List UInt8} {index : Nat}
  (earliest : cut cfg.delimiters buf = some (index, delim))

include earliest

/-- The first delimiter has bytes that a rejection would take off. -/
theorem cut_takes : buf.drop (index + delim.length) ≠ buf := by
  intro same
  have named := List.length_pos_iff.mpr (cfg.validated delim (cut_some earliest).1)
  have within := cut_within earliest
  have length := congrArg List.length same
  rw [List.length_drop] at length
  omega

theorem not_enforces_above (above : cfg.maxFrameLength.toNat < index) :
    ¬ cfg.Enforces smallEndian buf index delim := by
  rw [Enforces, if_neg (Nat.not_le_of_lt above)]
  rintro ⟨turns, outcomes, done, silent⟩
  exact cut_takes earliest (afterTurns_silent done silent)

theorem afterTurns_one {outcome : Outcome} {rest : List UInt8} :
    cfg.afterTurns smallEndian 1 buf = .ok ([outcome], rest) ↔
      cfg.turn smallEndian buf = .ok (outcome, rest) := by
  have named := List.length_pos_iff.mpr (cfg.validated delim (cut_some earliest).1)
  have within := cut_within earliest
  rw [afterTurns, if_neg (by omega)]
  cases cfg.turn smallEndian buf with
  | error fault =>
      constructor
      · intro done
        cases done
      · intro done
        cases done
  | ok turned =>
      obtain ⟨first, behind⟩ := turned
      dsimp only [bind, Except.bind, afterTurns]
      split <;> simp

/-- The search decides about a delimiter that is not above the maximum. -/
theorem enforces_searchesTo :
    cfg.Enforces smallEndian buf index delim ↔ index ≤ cfg.maxFrameLength.toNat ∧
      cfg.maxFrameLength.toNat < 2 ^ 31 - 1 ∧ cfg.SearchesTo smallEndian buf index delim := by
  by_cases allowed : index ≤ cfg.maxFrameLength.toNat
  · rw [Enforces, if_pos allowed, afterTurns_one earliest]
    constructor
    · intro fires
      rcases turn_cases smallEndian cfg buf with
        ⟨position, other, cuts, turned | failed⟩ | turned
      · rw [turned, Except.ok.injEq, Prod.mk.injEq, Outcome.frame.injEq] at fires
        obtain ⟨⟨data, bytes⟩, -⟩ := fires
        exact ⟨allowed, cuts.limit, position, other, cuts, bytes, data⟩
      · rw [failed] at fires
        cases fires
      · rw [turned] at fires
        cases fires
    · rintro ⟨-, -, position, other, cuts, bytes, data⟩
      have whole : cfg.cutBytes position other ≤ buf.length := by
        rw [bytes]
        exact cut_within earliest
      rw [turn_cut cuts whole, bytes, data]
  · rw [Nat.not_le] at allowed
    refine iff_of_false (not_enforces_above earliest allowed) ?_
    rintro ⟨within, -⟩
    omega

end Cut

/-- The maximum is enforced on a delimiter that occurs no later than it, for a maximum
below `INT_MAX`, where the search is not misled by positions past `INT_MAX`; over less
than `2 ^ 31` bytes there are none. -/
theorem enforces_iff (smallEndian : Bool) (cfg : DelimiterBasedFrameDecoder)
    {buf delim : List UInt8} {index : Nat}
    (earliest : cut cfg.delimiters buf = some (index, delim)) :
    (cfg.Enforces smallEndian buf index delim ↔ index ≤ cfg.maxFrameLength.toNat ∧
      cfg.maxFrameLength.toNat < 2 ^ 31 - 1 ∧ cfg.SearchesTo smallEndian buf index delim) ∧
    (buf.length < 2 ^ 31 → (cfg.Enforces smallEndian buf index delim ↔
      index ≤ cfg.maxFrameLength.toNat ∧ cfg.maxFrameLength.toNat < 2 ^ 31 - 1)) := by
  refine ⟨enforces_searchesTo earliest, fun short => ?_⟩
  rw [enforces_searchesTo earliest]
  constructor
  · rintro ⟨allowed, limit, -⟩
    exact ⟨allowed, limit⟩
  · rintro ⟨allowed, limit⟩
    obtain ⟨bytes, data⟩ := cutBytes_eq earliest short
    have cuts := (cutsAt_iff smallEndian limit short).mpr ⟨index, earliest, allowed, rfl⟩
    exact ⟨allowed, limit, _, _, cuts, bytes, data⟩

theorem enforces_iff_line :
    (lines.Enforces true [65, 10] 1 [10] ↔ 1 ≤ lines.maxFrameLength.toNat ∧
      lines.maxFrameLength.toNat < 2 ^ 31 - 1 ∧ lines.SearchesTo true [65, 10] 1 [10]) ∧
    ([65, 10].length < 2 ^ 31 → (lines.Enforces true [65, 10] 1 [10] ↔
      1 ≤ lines.maxFrameLength.toNat ∧ lines.maxFrameLength.toNat < 2 ^ 31 - 1)) :=
  enforces_iff true lines (by decide)

/-- A line of one byte more than the maximum. -/
def longLine : List UInt8 := List.replicate 65 65 ++ [10]

/-- It is neither fired nor dropped. -/
theorem longLine_not_enforced :
    cut lines.delimiters longLine = some (65, [10]) ∧ ¬ lines.Enforces true longLine 65 [10] := by
  have earliest : cut lines.delimiters longLine = some (65, [10]) := by decide +kernel
  exact ⟨earliest, not_enforces_above earliest (by decide)⟩

end DelimiterBasedFrameDecoder

end FysobEngine.Handler.Delimiter
