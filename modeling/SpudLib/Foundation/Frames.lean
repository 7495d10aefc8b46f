import SpudLib.Foundation.Fault
import Mathlib.Algebra.GroupWithZero.Nat
import Mathlib.Algebra.Order.Group.Nat

/-!
# Frames in a buffer

Frames lie one behind the other: a header that says how long the frame is and what, its
content, and as much padding as aligns the next header.  Whoever fills a buffer cuts the
frame that it has no room for, and leaves the padding as it was.  A reader goes from header
to header as long as the next frame is inside what was filled.
-/

namespace SpudLib

/-- How a header is written, and what the frames are aligned to. -/
structure Framing (Tag : Type) where
  unit : Nat
  header : Nat
  limit : Nat
  write : Nat → Tag → List UInt8
  read : List UInt8 → Nat × Tag
  unit_pos : 0 < unit
  header_pos : 0 < header
  length_write : ∀ length tag, (write length tag).length = header
  read_write : ∀ length tag rest, length < limit → read (write length tag ++ rest) = (length, tag)

structure Frame (Tag : Type) where
  tag : Tag
  content : List UInt8

/-- A frame as a reader meets it: shorter than it should be if it was cut. -/
structure Arrival (Tag : Type) where
  offset : Nat
  length : Nat
  frame : Frame Tag

namespace Framing

variable {Tag : Type} (framing : Framing Tag)

def align (length : Nat) : Nat := (length + framing.unit - 1) / framing.unit * framing.unit

def size (frame : Frame Tag) : Nat := framing.header + frame.content.length

def extent (frames : List (Frame Tag)) : Nat :=
  (frames.map fun frame => framing.align (framing.size frame)).sum

/-- What a buffer holds once frames are written to it. -/
def fill : List UInt8 → List (Frame Tag) → List UInt8
  | room, [] => room
  | room, frame :: rest =>
      if room.length < framing.header then room
      else if room.length < framing.size frame then
        framing.write room.length frame.tag ++ frame.content.take (room.length - framing.header)
      else
        framing.write (framing.size frame) frame.tag ++ frame.content ++
          (room.drop (framing.size frame)).take
            (framing.align (framing.size frame) - framing.size frame) ++
          fill (room.drop (framing.align (framing.size frame))) rest

def used : Nat → List (Frame Tag) → Nat
  | _, [] => 0
  | space, frame :: rest =>
      if space < framing.header then 0
      else if space < framing.size frame then space
      else framing.align (framing.size frame) +
        used (space - framing.align (framing.size frame)) rest

/-- The frames that there is a header of, the first at `offset`. -/
def arrivals : Nat → Nat → List (Frame Tag) → List (Arrival Tag)
  | _, _, [] => []
  | offset, space, frame :: rest =>
      if space < framing.header then []
      else if space < framing.size frame then [⟨offset, space, frame⟩]
      else ⟨offset, framing.size frame, frame⟩ ::
        arrivals (offset + framing.align (framing.size frame))
          (space - framing.align (framing.size frame)) rest

def fitting : Nat → List (Frame Tag) → List (Frame Tag)
  | _, [] => []
  | space, frame :: rest =>
      if space < framing.size frame then []
      else frame :: fitting (space - framing.align (framing.size frame)) rest

/-- Where the header behind the one at `offset` is, if the frame is inside. -/
def next (buffer : List UInt8) (used offset : Nat) : Option Nat :=
  let length := (framing.read (buffer.drop offset)).1
  let later := offset + framing.align length
  if length < framing.header then none
  else if used < later + framing.header then none
  else if used < later + framing.align (framing.read (buffer.drop later)).1 then none
  else some later

/-- Go from header to header; a step is given the place, the length and the tag of a frame. -/
def walk {State : Type} (step : State → Nat → Nat → Tag → Exec State) (buffer : List UInt8)
    (used : Nat) : Nat → Nat → State → Exec State
  | 0, _, _ => .error .diverges
  | bound + 1, offset, state => do
      let header := framing.read (buffer.drop offset)
      let state ← step state offset header.1 header.2
      match framing.next buffer used offset with
      | none => pure state
      | some later => walk step buffer used bound later state

section Alignment

theorem le_align (length : Nat) : length ≤ framing.align length := by
  have below := Nat.lt_div_mul_add (a := length + framing.unit - 1) framing.unit_pos
  have positive := framing.unit_pos
  unfold align
  omega

theorem unit_dvd_align (length : Nat) : framing.unit ∣ framing.align length :=
  Nat.dvd_mul_left _ _

theorem align_le {length space : Nat} (whole : framing.unit ∣ space) (fits : length ≤ space) :
    framing.align length ≤ space := by
  obtain ⟨count, rfl⟩ := whole
  have positive := framing.unit_pos
  have few : (length + framing.unit - 1) / framing.unit ≤ count := by
    rw [Nat.div_le_iff_le_mul_add_pred positive]
    omega
  calc framing.align length ≤ count * framing.unit := Nat.mul_le_mul_right _ few
    _ = framing.unit * count := Nat.mul_comm _ _

theorem align_of_dvd {length : Nat} (whole : framing.unit ∣ length) :
    framing.align length = length :=
  (framing.align_le whole (le_refl length)).antisymm (framing.le_align length)

end Alignment

theorem header_le_size (frame : Frame Tag) : framing.header ≤ framing.size frame :=
  Nat.le_add_right _ _

section Reading

variable {framing} {front room : List UInt8} {frames rest : List (Frame Tag)} {frame : Frame Tag}
  {offset space : Nat}

theorem fill_cut (begins : framing.header ≤ room.length) (cut : room.length < framing.size frame) :
    framing.fill room (frame :: rest) =
      framing.write room.length frame.tag ++ frame.content.take (room.length - framing.header) := by
  rw [fill, if_neg (Nat.not_lt.mpr begins), if_pos cut]

theorem arrivals_cut (begins : framing.header ≤ space) (cut : space < framing.size frame) :
    framing.arrivals offset space (frame :: rest) = [⟨offset, space, frame⟩] := by
  rw [arrivals, if_neg (Nat.not_lt.mpr begins), if_pos cut]

theorem used_cut (begins : framing.header ≤ space) (cut : space < framing.size frame) :
    framing.used space (frame :: rest) = space := by
  rw [used, if_neg (Nat.not_lt.mpr begins), if_pos cut]

theorem used_whole (fits : framing.size frame ≤ space) :
    framing.used space (frame :: rest) = framing.align (framing.size frame) +
      framing.used (space - framing.align (framing.size frame)) rest := by
  have begins := (framing.header_le_size frame).trans fits
  rw [used, if_neg (Nat.not_lt.mpr begins), if_neg (Nat.not_lt.mpr fits)]

theorem arrivals_whole (fits : framing.size frame ≤ space) :
    framing.arrivals offset space (frame :: rest) = ⟨offset, framing.size frame, frame⟩ ::
      framing.arrivals (offset + framing.align (framing.size frame))
        (space - framing.align (framing.size frame)) rest := by
  have begins := (framing.header_le_size frame).trans fits
  rw [arrivals, if_neg (Nat.not_lt.mpr begins), if_neg (Nat.not_lt.mpr fits)]

theorem fill_whole (rest : List (Frame Tag)) (whole : framing.unit ∣ room.length)
    (fits : framing.size frame ≤ room.length) :
    ∃ padding, framing.fill room (frame :: rest) =
        (framing.write (framing.size frame) frame.tag ++ frame.content ++ padding) ++
          framing.fill (room.drop (framing.align (framing.size frame))) rest ∧
      (framing.write (framing.size frame) frame.tag ++ frame.content ++ padding).length =
        framing.align (framing.size frame) := by
  have begins := (framing.header_le_size frame).trans fits
  have inside := framing.align_le whole fits
  have padded := framing.le_align (framing.size frame)
  refine ⟨(room.drop (framing.size frame)).take
    (framing.align (framing.size frame) - framing.size frame), ?_, ?_⟩
  · rw [fill, if_neg (Nat.not_lt.mpr begins), if_neg (Nat.not_lt.mpr fits)]
  · have written : framing.size frame = framing.header + frame.content.length := rfl
    simp only [List.length_append, framing.length_write, List.length_take, List.length_drop]
    omega

theorem unit_dvd_rest (whole : framing.unit ∣ room.length) (length : Nat) :
    framing.unit ∣ (room.drop (framing.align length)).length := by
  rw [List.length_drop]
  exact Nat.dvd_sub whole (framing.unit_dvd_align length)

theorem begins_of_arrivals (begins : framing.arrivals offset space frames ≠ []) :
    ∃ frame rest, frames = frame :: rest ∧ framing.header ≤ space := by
  cases frames with
  | nil => exact absurd rfl begins
  | cons frame rest =>
    refine ⟨frame, rest, rfl, ?_⟩
    by_contra short
    rw [arrivals, if_pos (Nat.not_le.mp short)] at begins
    exact begins rfl

/-- The first header, if there is one, is that of the first arrival, and inside. -/
theorem read_fill (whole : framing.unit ∣ room.length) (small : room.length < framing.limit)
    (begins : framing.arrivals offset room.length frames ≠ []) :
    ∃ length frame others, framing.read (framing.fill room frames) = (length, frame.tag) ∧
      framing.arrivals offset room.length frames = ⟨offset, length, frame⟩ :: others ∧
      framing.header ≤ length ∧ framing.align length ≤ framing.used room.length frames := by
  obtain ⟨frame, rest, rfl, roomy⟩ := begins_of_arrivals begins
  by_cases fits : framing.size frame ≤ room.length
  · obtain ⟨padding, filled, _⟩ := fill_whole rest whole fits
    refine ⟨framing.size frame, frame, _, ?_, arrivals_whole fits, framing.header_le_size frame, ?_⟩
    · rw [filled, List.append_assoc, List.append_assoc]
      exact framing.read_write _ _ _ (fits.trans_lt small)
    · rw [used_whole fits]
      exact Nat.le_add_right _ _
  · have cut := Nat.not_le.mp fits
    refine ⟨room.length, frame, [], ?_, arrivals_cut roomy cut, roomy, ?_⟩
    · rw [fill_cut roomy cut]
      exact framing.read_write _ _ _ small
    · rw [used_cut roomy cut, framing.align_of_dvd whole]

theorem used_of_no_arrivals (none : framing.arrivals offset space frames = []) :
    framing.used space frames = 0 := by
  cases frames with
  | nil => rfl
  | cons frame rest =>
    by_cases short : space < framing.header
    · rw [used, if_pos short]
    · rw [arrivals, if_neg short] at none
      split at none <;> cases none

/-- The reader meets the frames that arrived, one after the other. -/
theorem walk_fill {State : Type} (step : State → Nat → Nat → Tag → Exec State)
    (whole : framing.unit ∣ room.length) (small : room.length < framing.limit)
    (begins : framing.arrivals front.length room.length frames ≠ []) {bound : Nat}
    (enough : (framing.arrivals front.length room.length frames).length ≤ bound) (state : State) :
    framing.walk step (front ++ framing.fill room frames)
        (front.length + framing.used room.length frames) bound front.length state =
      (framing.arrivals front.length room.length frames).foldlM
        (fun state arrival => step state arrival.offset arrival.length arrival.frame.tag)
        state := by
  induction frames generalizing front room bound state with
  | nil => exact absurd rfl begins
  | cons frame rest inductionHypothesis =>
    obtain ⟨length, first, others, read, arrived, long, inside⟩ := read_fill whole small begins
    obtain ⟨bound, rfl⟩ : ∃ more, bound = more + 1 := by
      rw [arrived, List.length_cons] at enough
      exact ⟨bound - 1, by omega⟩
    have here : framing.read ((front ++ framing.fill room (frame :: rest)).drop front.length) =
        (length, first.tag) := by
      rw [List.drop_left]
      exact read
    have nextIs : framing.next (front ++ framing.fill room (frame :: rest))
        (front.length + framing.used room.length (frame :: rest)) front.length =
          if front.length + framing.used room.length (frame :: rest) <
            front.length + framing.align length + framing.header then none
          else if front.length + framing.used room.length (frame :: rest) <
            front.length + framing.align length + framing.align (framing.read
              ((front ++ framing.fill room (frame :: rest)).drop
                (front.length + framing.align length))).1 then none
          else some (front.length + framing.align length) := by
      simp only [next, here, if_neg (Nat.not_lt.mpr long)]
    obtain ⟨_, _, same, roomy⟩ := begins_of_arrivals begins
    cases same
    unfold walk
    simp only [here, arrived, List.foldlM_cons]
    congr 1
    funext state
    by_cases fits : framing.size frame ≤ room.length
    · -- behind a whole frame the reader goes on if there is another header
      rw [arrivals_whole fits] at arrived
      cases arrived
      obtain ⟨padding, filled, encoded⟩ := fill_whole rest whole fits
      rw [used_whole fits, filled] at nextIs ⊢
      generalize framing.write (framing.size frame) frame.tag ++ frame.content ++ padding = written
        at encoded nextIs ⊢
      have behind : (front ++ written).length =
          front.length + framing.align (framing.size frame) := by
        rw [List.length_append, encoded]
      have dropped : (room.drop (framing.align (framing.size frame))).length =
          room.length - framing.align (framing.size frame) := List.length_drop
      rw [← List.append_assoc, ← Nat.add_assoc, ← behind, List.drop_left, ← dropped] at nextIs
      rw [← List.append_assoc, ← Nat.add_assoc, ← behind, ← dropped]
      by_cases more : framing.arrivals (front ++ written).length
          (room.drop (framing.align (framing.size frame))).length rest = []
      · rw [used_of_no_arrivals more, Nat.add_zero,
          if_pos (Nat.lt_add_of_pos_right framing.header_pos)] at nextIs
        rw [used_of_no_arrivals more, Nat.add_zero, nextIs, more]
        rfl
      · have wholeRest := unit_dvd_rest whole (framing.size frame)
        have smallRest : (room.drop (framing.align (framing.size frame))).length <
            framing.limit := dropped ▸ (Nat.sub_le room.length _).trans_lt small
        obtain ⟨later, second, _, readLater, _, longLater, insideLater⟩ :=
          read_fill wholeRest smallRest more
        have padded := framing.le_align later
        simp only [readLater] at nextIs
        rw [if_neg (by omega), if_neg (by omega)] at nextIs
        rw [nextIs]
        refine inductionHypothesis wholeRest smallRest more ?_ state
        rw [arrivals_whole fits, ← behind, ← dropped, List.length_cons] at enough
        exact Nat.le_of_succ_le_succ enough
    · have cut := Nat.not_le.mp fits
      rw [arrivals_cut roomy cut] at arrived
      cases arrived
      rw [used_cut roomy cut, framing.align_of_dvd whole,
        if_pos (Nat.lt_add_of_pos_right framing.header_pos)] at nextIs
      rw [used_cut roomy cut, nextIs]
      rfl

@[simp] theorem length_fill (whole : framing.unit ∣ room.length) (frames : List (Frame Tag)) :
    (framing.fill room frames).length = room.length := by
  induction frames generalizing room with
  | nil => rfl
  | cons frame rest inductionHypothesis =>
    by_cases short : room.length < framing.header
    · rw [fill, if_pos short]
    · have begins := Nat.not_lt.mp short
      by_cases fits : framing.size frame ≤ room.length
      · obtain ⟨padding, filled, encoded⟩ := fill_whole rest whole fits
        have inside := framing.align_le whole fits
        rw [filled, List.length_append, encoded, inductionHypothesis (unit_dvd_rest whole _),
          List.length_drop, Nat.add_sub_cancel' inside]
      · have cut := Nat.not_le.mp fits
        have sized : framing.size frame = framing.header + frame.content.length := rfl
        rw [fill_cut begins cut, List.length_append, framing.length_write, List.length_take]
        omega

/-- Whatever a buffer holds, the reader comes to an end: each header is behind the one before
it. -/
theorem walk_ends {State : Type} {step : State → Nat → Nat → Tag → Exec State}
    (ends : ∀ state offset length tag, step state offset length tag ≠ .error .diverges)
    (buffer : List UInt8) {limit offset bound : Nat} (inside : offset < limit)
    (enough : limit ≤ offset + bound) (state : State) :
    framing.walk step buffer limit bound offset state ≠ .error .diverges := by
  induction bound generalizing offset state with
  | zero => omega
  | succ bound inductionHypothesis =>
    unfold walk
    dsimp only
    have here := ends state offset (framing.read (buffer.drop offset)).1
      (framing.read (buffer.drop offset)).2
    cases stepped : step state offset (framing.read (buffer.drop offset)).1
        (framing.read (buffer.drop offset)).2 with
    | error reason =>
      rw [stepped] at here
      exact here
    | ok after =>
      rw [Exec.ok_bind]
      cases later : framing.next buffer limit offset with
      | none => simp
      | some further =>
        have header := framing.header_pos
        have padded := framing.le_align (framing.read (buffer.drop offset)).1
        have ahead : offset < further ∧ further < limit := by
          unfold next at later
          dsimp only at later
          split at later
          · cases later
          split at later
          · cases later
          split at later
          · cases later
          · cases later
            omega
        exact inductionHypothesis ahead.2 (by omega) after

theorem content_of_arrival (whole : framing.unit ∣ room.length) {arrival : Arrival Tag}
    (member : arrival ∈ framing.arrivals front.length room.length frames)
    (uncut : arrival.length = framing.size arrival.frame) :
    arrival.offset + arrival.length ≤ (front ++ framing.fill room frames).length ∧
      ((front ++ framing.fill room frames).drop (arrival.offset + framing.header)).take
        arrival.frame.content.length = arrival.frame.content := by
  induction frames generalizing front room with
  | nil => exact absurd member List.not_mem_nil
  | cons frame rest inductionHypothesis =>
    obtain ⟨_, _, same, roomy⟩ := begins_of_arrivals (List.ne_nil_of_mem member)
    cases same
    by_cases fits : framing.size frame ≤ room.length
    · obtain ⟨padding, filled, encoded⟩ := fill_whole rest whole fits
      rw [arrivals_whole fits] at member
      rcases List.mem_cons.mp member with rfl | later
      · have written := framing.length_write (framing.size frame) frame.tag
        rw [filled]
        constructor
        · simp only [List.length_append] at encoded ⊢
          have sized : framing.size frame = framing.header + frame.content.length := rfl
          omega
        · rw [← List.drop_drop, List.drop_left, List.append_assoc, List.append_assoc, ← written,
            List.drop_left, List.take_left]
      · generalize framing.write (framing.size frame) frame.tag ++ frame.content ++ padding =
          written at encoded filled
        have behind : (front ++ written).length =
            front.length + framing.align (framing.size frame) := by
          rw [List.length_append, encoded]
        rw [filled, ← List.append_assoc]
        apply inductionHypothesis (unit_dvd_rest whole _)
        rw [behind, List.length_drop]
        exact later
    · have cut := Nat.not_le.mp fits
      rw [arrivals_cut roomy cut] at member
      obtain rfl := List.mem_singleton.mp member
      exact absurd uncut cut.ne

theorem length_arrivals_le :
    (framing.arrivals offset space frames).length ≤ framing.used space frames := by
  induction frames generalizing offset space with
  | nil => exact le_refl _
  | cons frame rest inductionHypothesis =>
    have positive := framing.header_pos
    by_cases short : space < framing.header
    · rw [arrivals, if_pos short]
      exact Nat.zero_le _
    · by_cases fits : framing.size frame ≤ space
      · have padded := framing.le_align (framing.size frame)
        have sized := framing.header_le_size frame
        rw [arrivals_whole fits, used_whole fits, List.length_cons]
        have further := @inductionHypothesis (offset + framing.align (framing.size frame))
          (space - framing.align (framing.size frame))
        omega
      · have begins := Nat.not_lt.mp short
        rw [arrivals_cut begins (Nat.not_le.mp fits), used_cut begins (Nat.not_le.mp fits)]
        exact (positive.trans_le begins)

theorem mem_arrivals (whole : framing.unit ∣ space) {arrival : Arrival Tag} :
    arrival ∈ framing.arrivals offset space frames ↔
      ∃ before frame after, frames = before ++ frame :: after ∧
        framing.extent before + framing.header ≤ space ∧
        arrival = ⟨offset + framing.extent before,
          min (framing.size frame) (space - framing.extent before), frame⟩ := by
  induction frames generalizing offset space with
  | nil => simp [arrivals]
  | cons frame rest inductionHypothesis =>
    have split : ∀ Holds : List (Frame Tag) → Frame Tag → Prop,
        (∃ before other after, frame :: rest = before ++ other :: after ∧ Holds before other) ↔
          Holds [] frame ∨
            ∃ before other after, rest = before ++ other :: after ∧
              Holds (frame :: before) other := by
      intro Holds
      constructor
      · rintro ⟨before, other, after, same, holds⟩
        cases before with
        | nil =>
          cases same
          exact .inl holds
        | cons first before =>
          cases same
          exact .inr ⟨before, other, after, rfl, holds⟩
      · rintro (holds | ⟨before, other, after, rfl, holds⟩)
        · exact ⟨[], frame, rest, rfl, holds⟩
        · exact ⟨frame :: before, other, after, rfl, holds⟩
    have longer : ∀ before, framing.extent (frame :: before) =
        framing.align (framing.size frame) + framing.extent before := fun _ => rfl
    have padded := framing.le_align (framing.size frame)
    have sized := framing.header_le_size frame
    rw [split fun before other => framing.extent before + framing.header ≤ space ∧
      arrival = ⟨offset + framing.extent before,
        min (framing.size other) (space - framing.extent before), other⟩]
    simp only [longer]
    by_cases short : space < framing.header
    · rw [arrivals, if_pos short]
      constructor
      · intro member
        exact absurd member List.not_mem_nil
      · rintro (⟨fits, _⟩ | ⟨before, other, after, _, fits, _⟩) <;> omega
    have begins := Nat.not_lt.mp short
    by_cases fits : framing.size frame ≤ space
    · have inside := framing.align_le whole fits
      rw [arrivals_whole fits, List.mem_cons,
        inductionHypothesis (Nat.dvd_sub whole (framing.unit_dvd_align _))]
      apply or_congr
      · simp [extent, begins, Nat.min_eq_left fits]
      · constructor
        · rintro ⟨before, other, after, same, room, rfl⟩
          refine ⟨before, other, after, same, by omega, ?_⟩
          rw [Nat.add_assoc, Nat.sub_sub]
        · rintro ⟨before, other, after, same, room, rfl⟩
          refine ⟨before, other, after, same, by omega, ?_⟩
          rw [Nat.add_assoc, Nat.sub_sub]
    · have cut := Nat.not_le.mp fits
      rw [arrivals_cut begins cut, List.mem_singleton]
      constructor
      · rintro rfl
        exact .inl ⟨by simpa [extent] using begins, by simp [extent, Nat.min_eq_right cut.le]⟩
      · rintro (⟨_, rfl⟩ | ⟨before, other, after, _, room, _⟩)
        · simp [extent, Nat.min_eq_right cut.le]
        · omega

theorem extent_split (before after : List (Frame Tag)) (frame : Frame Tag) :
    framing.extent (before ++ frame :: after) =
      framing.extent before + framing.align (framing.size frame) + framing.extent after := by
  simp [extent, Nat.add_assoc]

theorem fitting_of_extent_le (room : framing.extent frames ≤ space) :
    framing.fitting space frames = frames := by
  induction frames generalizing space with
  | nil => rfl
  | cons frame rest inductionHypothesis =>
    have longer : framing.extent (frame :: rest) =
        framing.align (framing.size frame) + framing.extent rest := rfl
    have padded := framing.le_align (framing.size frame)
    rw [fitting, if_neg (by omega), inductionHypothesis (by omega)]

/-- If a cut frame is passed over, what has been read in the end are the frames that fit. -/
theorem foldlM_arrivals {State : Type} {step : State → Arrival Tag → Exec State}
    {heed : State → Frame Tag → State}
    (each : ∀ arrival ∈ framing.arrivals offset space frames, ∀ state, step state arrival =
      .ok (if arrival.length = framing.size arrival.frame then heed state arrival.frame
        else state)) (state : State) :
    (framing.arrivals offset space frames).foldlM step state =
      .ok ((framing.fitting space frames).foldl heed state) := by
  induction frames generalizing offset space state with
  | nil => rfl
  | cons frame rest inductionHypothesis =>
    by_cases fits : framing.size frame ≤ space
    · rw [arrivals_whole fits] at each ⊢
      rw [fitting, if_neg (Nat.not_lt.mpr fits), List.foldlM_cons, List.foldl_cons,
        each _ List.mem_cons_self, if_pos rfl]
      exact inductionHypothesis (fun arrival member => each arrival (List.mem_cons_of_mem _ member))
        (heed state frame)
    · have cut := Nat.not_le.mp fits
      rw [fitting, if_pos cut]
      by_cases short : space < framing.header
      · rw [arrivals, if_pos short]
        rfl
      · rw [arrivals_cut (Nat.not_lt.mp short) cut] at each ⊢
        rw [List.foldlM_cons, each _ List.mem_cons_self, if_neg cut.ne]
        rfl

end Reading

end Framing

theorem Exec.foldlM_eq_error {State Alpha : Type} {step : State → Alpha → Exec State}
    {reason : Fault} {values : List Alpha}
    (each : ∀ value ∈ values, ∀ state, (∃ after, step state value = .ok after) ∨
      step state value = .error reason)
    (stops : ∃ value ∈ values, ∀ state, step state value = .error reason) (state : State) :
    values.foldlM step state = .error reason := by
  induction values generalizing state with
  | nil =>
    obtain ⟨value, member, _⟩ := stops
    exact absurd member List.not_mem_nil
  | cons first rest inductionHypothesis =>
    rw [List.foldlM_cons]
    rcases each first List.mem_cons_self state with ⟨after, returned⟩ | stopped
    · rw [returned]
      apply inductionHypothesis fun value member => each value (List.mem_cons_of_mem _ member)
      obtain ⟨value, member, always⟩ := stops
      rcases List.mem_cons.mp member with rfl | member
      · cases returned.symm.trans (always state)
      · exact ⟨value, member, always⟩
    · rw [stopped]
      rfl

end SpudLib
