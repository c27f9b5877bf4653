import FysobEngine.Foundation.Occurrences
import FysobEngine.Handler.DelimiterTermination

/-!
# The delimiter decoder and the reference split

The bytes cut at the delimiter that occurs first, again and again, as long as the
frame is not above the maximum. Below `INT_MAX` the loop of `decode` cuts there.
-/

namespace FysobEngine.Handler.Delimiter

open Net Foundation.Occurrences

namespace Outcome

/-- The message of `fire_read`. -/
def fired : Outcome → Option (List UInt8)
  | .frame data _ => some data
  | _ => none

end Outcome

/-- The messages that are fired. -/
def firedFrames (outcomes : List Outcome) : List (List UInt8) := outcomes.filterMap Outcome.fired

/-- An index as an `int`, or `-1`. -/
def place : Option Nat → Int32
  | some index => Int32.ofNat index
  | none => -1

namespace DelimiterBasedFrameDecoder

/-! ## `index_of` -/

variable (smallEndian : Bool)

/-- What the comparison with the bytes from an index on finds out. -/
theorem compareFrom_spec {haystack : List UInt8} (needle : List UInt8) {index : Nat}
    (inside : index < haystack.length) :
    compareFrom smallEndian haystack index needle = .ok .found ∧
        needle <+: haystack.drop index ∨
      compareFrom smallEndian haystack index needle = .ok .mismatch ∧
        ¬ needle <+: haystack.drop index ∨
      compareFrom smallEndian haystack index needle = .ok .ranOut ∧
        haystack.length < index + needle.length := by
  induction needle generalizing index with
  | nil => exact .inl ⟨rfl, List.nil_prefix⟩
  | cons byte rest ih =>
      rw [compareFrom, ByteQueue.peekIndexEndian_byte smallEndian true inside,
        List.drop_eq_getElem_cons inside, List.cons_prefix_cons]
      dsimp only [orAssert, bind, Except.bind]
      split
      · next other =>
          refine .inr (.inl ⟨rfl, fun same => other ?_⟩)
          rw [same.1]
      · next same =>
          have same : byte = haystack[index] :=
            (UInt8.toNat_inj.mp (Classical.not_not.mp same)).symm
          split
          · next last =>
              refine .inr (.inr ⟨rfl, ?_⟩)
              have more := List.length_pos_iff.mpr last.2
              rw [List.length_cons]
              omega
          · next more =>
              by_cases last : index + 1 = haystack.length
              · -- the needle ends with the buffer
                have none : rest = [] := by
                  apply Classical.byContradiction
                  intro left
                  exact more ⟨last, left⟩
                subst none
                exact .inl ⟨rfl, same, List.nil_prefix⟩
              · have inner := @ih (index + 1) (by omega)
                rw [List.length_cons]
                rcases inner with ⟨done, there⟩ | ⟨done, away⟩ | ⟨done, long⟩
                · exact .inl ⟨done, same, there⟩
                · exact .inr (.inl ⟨done, fun both => away both.2⟩)
                · exact .inr (.inr ⟨done, by omega⟩)

/-- `index_of` finds the first occurrence. -/
theorem indexOf_eq {needle : List UInt8} (named : needle ≠ []) (haystack : List UInt8) :
    indexOf smallEndian haystack needle = .ok (place (find needle haystack)) := by
  have loop (left index : Nat) (inside : index + left = haystack.length) :
      indexOfLoop smallEndian haystack needle left index =
        .ok (place ((find needle (haystack.drop index)).map (index + ·))) := by
    induction left generalizing index with
    | zero =>
        rw [List.drop_of_length_le (by omega), find, if_neg named]
        rfl
    | succ left ih =>
        have within : index < haystack.length := by omega
        have next := ih (index + 1) (by omega)
        rw [indexOfLoop]
        rcases compareFrom_spec smallEndian needle within with
          ⟨done, there⟩ | ⟨done, away⟩ | ⟨done, long⟩
        · rw [List.drop_eq_getElem_cons within] at there ⊢
          rw [done, find, if_pos there]
          rfl
        · rw [List.drop_eq_getElem_cons within] at away ⊢
          rw [done, find, if_neg away]
          dsimp only [bind, Except.bind]
          rw [next]
          cases find needle (haystack.drop (index + 1)) with
          | none => rfl
          | some place =>
              rw [Option.map_some, Option.map_some, Option.map_some, Nat.add_right_comm]
              rfl
        · have absent : find needle (haystack.drop index) = none := by
            apply find_none
            rw [List.length_drop]
            omega
          rw [done, absent]
          rfl
  have whole := loop haystack.length 0 (Nat.zero_add _)
  rw [List.drop_zero] at whole
  rw [indexOf, whole]
  cases find needle haystack with
  | none => rfl
  | some index => rw [Option.map_some, Nat.zero_add]

theorem toInt_place (index : Nat) (small : index < 2 ^ 31) :
    (place (some index)).toInt = index :=
  Int32.toInt_ofNat_of_lt small

/-- An answer of `index_of`: the least index at which the needle occurs, or `-1` when it
occurs nowhere. -/
structure FirstOccurrence (haystack needle : List UInt8) (position : Int32) : Prop where
  least : ∀ index : Nat, position.toInt = index ↔
    needle <+: haystack.drop index ∧ ∀ earlier < index, ¬ needle <+: haystack.drop earlier
  nowhere : position.toInt = -1 ↔ ∀ index, ¬ needle <+: haystack.drop index

/-- Below `INT_MAX` the answer is right, and no index past the end is looked at. -/
theorem indexOf_first {haystack needle : List UInt8} (short : haystack.length < 2 ^ 31)
    (named : needle ≠ []) :
    ∃ position, indexOf smallEndian haystack needle = .ok position ∧
      FirstOccurrence haystack needle position := by
  refine ⟨_, indexOf_eq smallEndian named haystack, ?_⟩
  cases found : find needle haystack with
  | none =>
      have absent := (find_eq_none_iff named).mp found
      have value : (place none).toInt = -1 := by decide
      constructor
      · rw [value]
        exact fun index => iff_of_false (by omega) fun first => absent index first.1
      · exact iff_of_true value absent
  | some least =>
      obtain ⟨-, occurs, first⟩ := find_some_iff.mp found
      have within := find_within found
      have value := toInt_place least (by omega)
      constructor
      · intro index
        rw [value]
        constructor
        · intro same
          obtain rfl := Int.ofNat_inj.mp same
          exact ⟨occurs, first⟩
        · rintro ⟨there, before⟩
          -- neither index is before the other
          have notBefore : ¬ index < least := fun earlier => first index earlier there
          have notBehind : ¬ least < index := fun later => before least later occurs
          omega
      · rw [value]
        exact iff_of_false (by omega) fun absent => absent least occurs

/-- The haystack ends in the middle of a needle that overlaps itself. -/
theorem indexOf_first_overlap :
    ∃ position, indexOf true [1, 1, 2, 1, 1] [1, 1, 2, 1, 1, 2] = .ok position ∧
      FirstOccurrence [1, 1, 2, 1, 1] [1, 1, 2, 1, 1, 2] position :=
  @indexOf_first true [1, 1, 2, 1, 1] [1, 1, 2, 1, 1, 2] (by decide) (by decide)

/-! ## The nearest delimiter -/

/-- Below `INT_MAX` the search starts with a ceiling and finds the first cut below it. -/
theorem nearest_eq {buf : List UInt8} {delims : List (List UInt8)}
    (named : ∀ delim ∈ delims, delim ≠ []) (short : buf.length < 2 ^ 31) (start : Int32)
    (startDelim : List UInt8) :
    nearest smallEndian buf delims start startDelim = .ok (match cut delims buf with
      | some (index, delim) =>
          if (index : Int) < start.toInt then (Int32.ofNat index, delim) else (start, startDelim)
      | none => (start, startDelim)) := by
  induction delims generalizing start startDelim with
  | nil => rfl
  | cons first rest ih =>
      obtain ⟨namedFirst, namedRest⟩ := List.forall_mem_cons.mp named
      have ih := ih namedRest
      rw [nearest, indexOf_eq smallEndian namedFirst, cut]
      dsimp only [bind, Except.bind]
      cases found : find first buf with
      | none =>
          have outside : ¬ (0 ≤ place none ∧ place none < start) := by
            rintro ⟨inside, -⟩
            exact absurd inside (by decide)
          rw [if_neg outside, ih]
      | some index =>
          have within := find_within found
          have value := toInt_place index (by omega)
          have nearer : (0 ≤ place (some index) ∧ place (some index) < start) ↔
              (index : Int) < start.toInt := by
            rw [Int32.le_iff_toInt_le, Int32.lt_iff_toInt_lt, value]
            exact ⟨And.right, fun close => ⟨Int.natCast_nonneg index, close⟩⟩
          by_cases close : (index : Int) < start.toInt
          · rw [if_pos (nearer.mpr close), ih, value]
            cases cut rest buf with
            | none => exact congrArg _ (if_pos close).symm
            | some later =>
                obtain ⟨other, delim⟩ := later
                dsimp only
                by_cases before : other < index
                · rw [if_pos (Int.ofNat_lt.mpr before), if_pos before]
                  dsimp only
                  rw [if_pos (Int.lt_trans (Int.ofNat_lt.mpr before) close)]
                · rw [if_neg (mt Int.ofNat_lt.mp before), if_neg before]
                  dsimp only
                  rw [if_pos close]
                  rfl
          · rw [if_neg (mt nearer.mp close), ih]
            cases cut rest buf with
            | none => exact congrArg _ (if_neg close).symm
            | some later =>
                obtain ⟨other, delim⟩ := later
                dsimp only
                by_cases before : other < index
                · rw [if_pos before]
                · have far : ¬ (other : Int) < start.toInt := by omega
                  rw [if_neg before, if_neg far]
                  dsimp only
                  rw [if_neg close]

/-! ## One turn -/

variable {cfg : DelimiterBasedFrameDecoder}

/-- The message for a frame with its delimiter. -/
def message (cfg : DelimiterBasedFrameDecoder) (piece : List UInt8 × List UInt8) : List UInt8 :=
  if cfg.stripDelimiter then piece.1 else piece.1 ++ piece.2

theorem toSize_ofNat {length : Nat} (small : length < 2 ^ 31) :
    toSize (Int32.ofNat length) = length := by
  have most : (length : Int) ≤ Int32.maxValue.toInt := by
    have value : Int32.maxValue.toInt = 2 ^ 31 - 1 := by decide
    omega
  rw [toSize, Int32.toInt64_ofNat' most, Int64.toUInt64_ofNat', UInt64.toNat_ofNat']
  exact Nat.mod_eq_of_lt (by omega)

theorem toInt_ceiling (limit : cfg.maxFrameLength.toNat < 2 ^ 31 - 1) :
    cfg.ceiling.toInt = cfg.maxFrameLength.toNat + 1 := by
  obtain ⟨-, value⟩ | ⟨large, -⟩ := toInt_ceiling_cases cfg
  · exact value
  · exact absurd limit (Nat.not_lt_of_le large)

/-- The loop cuts exactly at the first delimiter that is not above the maximum. -/
theorem cutsAt_iff (limit : cfg.maxFrameLength.toNat < 2 ^ 31 - 1) {buf : List UInt8}
    (short : buf.length < 2 ^ 31) {position : Int32} {delim : List UInt8} :
    cfg.CutsAt smallEndian buf position delim ↔ ∃ index : Nat,
      cut cfg.delimiters buf = some (index, delim) ∧ index ≤ cfg.maxFrameLength.toNat ∧
        position = Int32.ofNat index := by
  have search := nearest_eq smallEndian cfg.validated short cfg.ceiling []
  rw [toInt_ceiling limit] at search
  constructor
  · intro cuts
    have named := cuts.delim_ne_nil
    have found := Nearest.found cuts []
    rw [search, Except.ok.injEq] at found
    cases nearest : cut cfg.delimiters buf with
    | none =>
        rw [nearest] at found
        cases found
        exact absurd rfl named
    | some first =>
        obtain ⟨index, needle⟩ := first
        rw [nearest] at found
        dsimp only at found
        split at found
        · next below =>
            cases found
            exact ⟨index, rfl, by omega, rfl⟩
        · cases found
          exact absurd rfl named
  · rintro ⟨index, nearest, allowed, rfl⟩
    have below : (index : Int) < cfg.maxFrameLength.toNat + 1 := by omega
    rw [nearest] at search
    dsimp only at search
    rw [if_pos below] at search
    have named := cfg.validated delim (cut_some nearest).1
    rcases nearest_cases buf cfg.delimiters cfg.ceiling [] with ⟨kept, -⟩ | ⟨place, other, cuts⟩
    · rw [search, Except.ok.injEq, Prod.mk.injEq] at kept
      exact absurd kept.2 named
    · have found := Nearest.found cuts []
      rw [search, Except.ok.injEq, Prod.mk.injEq] at found
      obtain ⟨rfl, rfl⟩ := found
      exact cuts

theorem cutBytes_eq {buf delim : List UInt8} {index : Nat}
    (nearest : cut cfg.delimiters buf = some (index, delim)) (short : buf.length < 2 ^ 31) :
    cfg.cutBytes (Int32.ofNat index) delim = index + delim.length ∧
      cfg.cutData buf (Int32.ofNat index) delim = cfg.message (buf.take index, delim) := by
  have within := cut_within nearest
  have bytes : cfg.cutBytes (Int32.ofNat index) delim = index + delim.length := by
    rw [cutBytes, ← Int32.ofNat_add]
    split
    · rw [toSize_ofNat (by omega), toSize_ofNat (by omega)]
    · exact toSize_ofNat (by omega)
  refine ⟨bytes, ?_⟩
  rw [cutData, message, bytes, toSize_ofNat (by omega)]
  split
  · rfl
  · have whole := cut_joined nearest
    have length : (buf.take index ++ delim).length = index + delim.length := by
      rw [List.length_append, List.length_take_of_le (by omega)]
    calc buf.take (index + delim.length)
        = (buf.take index ++ delim ++ buf.drop (index + delim.length)).take
            (index + delim.length) := by rw [← whole]
      _ = buf.take index ++ delim := List.take_left' length

/-- A turn on a cut that is not above the maximum. -/
theorem turn_piece (limit : cfg.maxFrameLength.toNat < 2 ^ 31 - 1) {buf delim : List UInt8}
    (short : buf.length < 2 ^ 31) {index : Nat}
    (nearest : cut cfg.delimiters buf = some (index, delim))
    (allowed : index ≤ cfg.maxFrameLength.toNat) :
    cfg.turn smallEndian buf =
      .ok (.frame (cfg.message (buf.take index, delim)) (index + delim.length),
        buf.drop (index + delim.length)) := by
  have cuts := (cutsAt_iff smallEndian limit short).mpr
    ⟨index, nearest, allowed, rfl⟩
  obtain ⟨bytes, data⟩ := cutBytes_eq nearest short
  have whole : cfg.cutBytes (Int32.ofNat index) delim ≤ buf.length := by
    rw [bytes]
    exact cut_within nearest
  rw [turn_cut cuts whole, bytes, data]

/-- A turn on anything else. -/
theorem turn_uncut (limit : cfg.maxFrameLength.toNat < 2 ^ 31 - 1) {buf : List UInt8}
    (short : buf.length < 2 ^ 31)
    (above : ∀ index delim, cut cfg.delimiters buf = some (index, delim) →
      cfg.maxFrameLength.toNat < index) :
    cfg.turn smallEndian buf = .ok (.nothing, buf) := by
  apply turn_nothing
  rintro ⟨position, delim, cuts⟩
  obtain ⟨index, nearest, allowed, -⟩ := (cutsAt_iff smallEndian limit short).mp cuts
  have far := above index delim nearest
  omega

/-! ## The loop -/

/-- The loop of `decode` after at most so many turns: how they ended and what stays. -/
def afterTurns (smallEndian : Bool) (cfg : DelimiterBasedFrameDecoder) :
    Nat → List UInt8 → Except Fault (List Outcome × List UInt8)
  | 0, buf => .ok ([], buf)
  | .succ turns, buf =>
      if buf.length = 0 then .ok ([], buf)
      else do
        let (outcome, rest) ← cfg.turn smallEndian buf
        if outcome.again then do
          let (outcomes, last) ← afterTurns smallEndian cfg turns rest
          .ok (outcome :: outcomes, last)
        else .ok ([outcome], rest)

/-- Where the loop ends, further turns change nothing. -/
theorem afterTurns_of_decodeLoop {turns : Nat} {buf rest : List UInt8} {outcomes : List Outcome}
    (done : cfg.decodeLoop smallEndian turns buf = some (outcomes, .ok rest)) :
    cfg.afterTurns smallEndian turns buf = .ok (outcomes, rest) := by
  induction turns generalizing buf outcomes with
  | zero => cases done
  | succ turns ih =>
      rw [decodeLoop] at done
      rw [afterTurns]
      split at done
      · next empty =>
          cases done
          rw [if_pos empty]
      · next nonempty =>
          rw [if_neg nonempty]
          split at done
          · cases done
          · next outcome behind turned =>
              rw [turned]
              dsimp only [bind, Except.bind]
              split at done
              · next again =>
                  obtain ⟨⟨later, ending⟩, inner, same⟩ := Option.map_eq_some_iff.mp done
                  cases same
                  rw [if_pos again, ih inner]
              · next leaves =>
                  cases done
                  rw [if_neg leaves]

/-- All the frames that the reference cuts off the bytes. -/
def reference (cfg : DelimiterBasedFrameDecoder) (buf : List UInt8) :
    List (List UInt8 × List UInt8) :=
  split cfg.delimiters cfg.maxFrameLength.toNat buf

/-- A number of turns fires that number of pieces, as far as there are so many. -/
theorem afterTurns_pieces (limit : cfg.maxFrameLength.toNat < 2 ^ 31 - 1) (turns : Nat)
    {buf : List UInt8} (short : buf.length < 2 ^ 31) :
    ∃ outcomes rest, cfg.afterTurns smallEndian turns buf = .ok (outcomes, rest) ∧
      firedFrames outcomes =
        (pieces cfg.delimiters cfg.maxFrameLength.toNat turns buf).map cfg.message ∧
      buf = joined (pieces cfg.delimiters cfg.maxFrameLength.toNat turns buf) ++ rest := by
  induction turns generalizing buf with
  | zero => exact ⟨[], buf, rfl, rfl, rfl⟩
  | succ turns ih =>
      rw [afterTurns]
      split
      · next empty =>
          rw [List.eq_nil_of_length_eq_zero empty, pieces_nil cfg.validated]
          exact ⟨[], [], rfl, rfl, rfl⟩
      · by_cases cuts : ∃ index delim, cut cfg.delimiters buf = some (index, delim) ∧
            index ≤ cfg.maxFrameLength.toNat
        · obtain ⟨index, delim, nearest, allowed⟩ := cuts
          have shorter : (buf.drop (index + delim.length)).length < 2 ^ 31 := by
            rw [List.length_drop]
            omega
          obtain ⟨outcomes, rest, done, fired, whole⟩ := ih shorter
          rw [turn_piece smallEndian limit short nearest allowed, pieces_cut turns nearest allowed]
          dsimp only [bind, Except.bind]
          rw [if_pos (show Outcome.again (.frame _ _) = true from rfl), done]
          refine ⟨_, rest, rfl, ?_, ?_⟩
          · rw [List.map_cons, ← fired]
            rfl
          · rw [joined, List.flatMap_cons, List.append_assoc]
            rw [joined] at whole
            rw [← whole]
            exact cut_joined nearest
        · have above : ∀ index delim, cut cfg.delimiters buf = some (index, delim) →
              cfg.maxFrameLength.toNat < index := by
            intro index delim nearest
            exact Nat.lt_of_not_le fun allowed => cuts ⟨index, delim, nearest, allowed⟩
          obtain ⟨outcomes, rest, done, fired, whole⟩ := ih short
          rw [pieces_uncut turns above] at fired whole
          rw [turn_uncut smallEndian limit short above, pieces_uncut (turns + 1) above]
          dsimp only [bind, Except.bind]
          rw [if_pos (show Outcome.again .nothing = true from rfl), done]
          exact ⟨.nothing :: outcomes, rest, rfl, fired, whole⟩

/-- A loop over nothing but complete frames ends and leaves nothing. -/
theorem decodeLoop_drains (limit : cfg.maxFrameLength.toNat < 2 ^ 31 - 1) (turns : Nat)
    {buf : List UInt8} (short : buf.length < 2 ^ 31)
    (complete : buf = joined (pieces cfg.delimiters cfg.maxFrameLength.toNat turns buf)) :
    ∃ outcomes, cfg.decodeLoop smallEndian (turns + 1) buf = some (outcomes, .ok []) := by
  induction turns generalizing buf with
  | zero =>
      rw [complete]
      exact ⟨[], rfl⟩
  | succ turns ih =>
      by_cases cuts : ∃ index delim, cut cfg.delimiters buf = some (index, delim) ∧
          index ≤ cfg.maxFrameLength.toNat
      · obtain ⟨index, delim, nearest, allowed⟩ := cuts
        have named := cfg.validated delim (cut_some nearest).1
        have nonempty : buf.length ≠ 0 := by
          have within := cut_within nearest
          have taken := List.length_pos_iff.mpr named
          omega
        have shorter : (buf.drop (index + delim.length)).length < 2 ^ 31 := by
          rw [List.length_drop]
          omega
        rw [pieces_cut turns nearest allowed] at complete
        have later : buf.drop (index + delim.length) =
            joined (pieces cfg.delimiters cfg.maxFrameLength.toNat turns
              (buf.drop (index + delim.length))) := by
          have whole := (cut_joined nearest).symm.trans complete
          rw [joined, List.flatMap_cons] at whole
          exact List.append_cancel_left whole
        obtain ⟨outcomes, done⟩ := ih shorter later
        have turned := turn_piece smallEndian limit short nearest allowed
        rw [decodeLoop_again (turns + 1) nonempty turned rfl, done]
        exact ⟨_, rfl⟩
      · rw [pieces_uncut] at complete
        · rw [complete]
          exact ⟨[], rfl⟩
        · intro index delim nearest
          exact Nat.lt_of_not_le fun allowed => cuts ⟨index, delim, nearest, allowed⟩

/-- After any number of turns the fired frames are the first of the reference split
and the rest of the bytes is left. Over bytes that the reference splits up `decode`
fires every frame and leaves nothing. -/
theorem decode_follows_reference (smallEndian : Bool) (cfg : DelimiterBasedFrameDecoder)
    (limit : cfg.maxFrameLength.toNat < 2 ^ 31 - 1) {buf : List UInt8}
    (short : buf.length < 2 ^ 31) :
    (∀ turns, ∃ outcomes rest, cfg.afterTurns smallEndian turns buf = .ok (outcomes, rest) ∧
      firedFrames outcomes = ((cfg.reference buf).take turns).map cfg.message ∧
      buf = joined ((cfg.reference buf).take turns) ++ rest) ∧
    (buf = joined (cfg.reference buf) →
      ∃ turns outcomes, cfg.decodeLoop smallEndian turns buf = some (outcomes, .ok []) ∧
        firedFrames outcomes = (cfg.reference buf).map cfg.message) := by
  constructor
  · intro turns
    obtain ⟨outcomes, rest, done, fired, whole⟩ :=
      afterTurns_pieces smallEndian limit turns short
    rw [pieces_eq_take cfg.validated] at fired whole
    exact ⟨outcomes, rest, done, fired, whole⟩
  · intro complete
    obtain ⟨outcomes, ended⟩ := decodeLoop_drains smallEndian limit buf.length short complete
    obtain ⟨others, rest, done, fired, -⟩ :=
      afterTurns_pieces smallEndian limit (buf.length + 1) short
    -- the loop ends within as many turns as there are bytes
    rw [afterTurns_of_decodeLoop smallEndian ended] at done
    cases done
    rw [pieces_all cfg.validated (Nat.le_succ buf.length)] at fired
    exact ⟨_, outcomes, ended, fired⟩

/-- Two lines. -/
theorem decode_follows_reference_lines :
    (∀ turns, ∃ outcomes rest,
      lines.afterTurns true turns [65, 10, 66, 10] = .ok (outcomes, rest) ∧
        firedFrames outcomes =
          ((lines.reference [65, 10, 66, 10]).take turns).map lines.message ∧
        [65, 10, 66, 10] = joined ((lines.reference [65, 10, 66, 10]).take turns) ++ rest) ∧
    ([65, 10, 66, 10] = joined (lines.reference [65, 10, 66, 10]) →
      ∃ turns outcomes,
        lines.decodeLoop true turns [65, 10, 66, 10] = some (outcomes, .ok []) ∧
          firedFrames outcomes = (lines.reference [65, 10, 66, 10]).map lines.message) :=
  decode_follows_reference true lines (by decide) (by decide)

example : lines.reference [65, 10, 66, 10] = [([65], [10]), ([66], [10])] := by decide

end DelimiterBasedFrameDecoder

end FysobEngine.Handler.Delimiter
