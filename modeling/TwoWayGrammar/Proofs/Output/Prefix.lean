import TwoWayGrammar.Proofs.Output.Quiet

namespace TwoWayGrammar.Sink

variable {sink next : Sink} {room limit : Nat} {pieces : List Text}

theorem writeAll_append (sink : Sink) (first second : List Text) :
    sink.writeAll (first ++ second) = sink.writeAll first >>= fun next => next.writeAll second :=
  List.foldlM_append

/-- Once the first pieces are taken, the others go to the sink that they left. -/
theorem writeAll_append_of_ok {first : List Text} (taken : sink.writeAll first = .ok next)
    (second : List Text) : sink.writeAll (first ++ second) = next.writeAll second := by
  rw [writeAll_append, taken]
  rfl

/-- After a refusal nothing more is sent. -/
theorem writeAll_append_of_error {first : List Text} (refused : sink.writeAll first = .error next)
    (second : List Text) : sink.writeAll (first ++ second) = .error next := by
  rw [writeAll_append, refused]
  rfl

/-- A sink has room for so many characters. A broken one has room for none. -/
structure HasRoom (sink : Sink) (room : Nat) : Prop where
  limited : sink.room = some room
  broken : sink.broken = true → room = 0

/-- A sink that was cut short and refuses takes nothing more. -/
structure Jammed (sink : Sink) : Prop where
  broken : sink.broken = true
  refuses : sink.refuses = true

theorem write_of_jammed (jammed : sink.Jammed) (piece : Text) : sink.write piece = .error sink := by
  simp [write, jammed.broken, deny, jammed.refuses]

theorem writeAll_of_jammed (jammed : sink.Jammed) (nonempty : pieces ≠ []) :
    sink.writeAll pieces = .error sink := by
  cases pieces with
  | nil => exact absurd rfl nonempty
  | cons piece pieces =>
    rw [writeAll_cons, write_of_jammed jammed]
    rfl

/-- Only a jammed sink refuses. -/
theorem jammed_of_write {piece : Text} (refused : sink.write piece = .error next) : next.Jammed := by
  unfold write deny at refused
  split at refused
  · rename_i broken
    split at refused
    · rename_i refuses
      obtain rfl := Except.error.inj refused
      exact ⟨broken, refuses⟩
    · simp at refused
  · split at refused
    · simp at refused
    · split at refused
      · simp at refused
      · split at refused
        · rename_i refuses
          obtain rfl := Except.error.inj refused
          exact ⟨rfl, refuses⟩
        · simp at refused

theorem jammed_of_writeAll (refused : sink.writeAll pieces = .error next) : next.Jammed := by
  induction pieces generalizing sink with
  | nil => simp at refused
  | cons piece pieces ih =>
    rw [writeAll_cons] at refused
    cases written : sink.write piece with
    | ok middle =>
      rw [written] at refused
      exact ih refused
    | error middle =>
      rw [written] at refused
      obtain rfl : middle = next := Except.error.inj refused
      exact jammed_of_write written

/-- The sink after a piece that fits. -/
def fill (sink : Sink) (room : Nat) (piece : Text) : Sink :=
  { sink.take piece with room := some (room - piece.length) }

/-- The sink after a piece that does not fit. -/
def cut (sink : Sink) (room : Nat) (piece : Text) : Sink :=
  { sink.take (piece.take room) with room := some 0, broken := true }

@[simp] theorem written_fill (sink : Sink) (room : Nat) (piece : Text) :
    (sink.fill room piece).written = sink.written ++ piece :=
  written_take sink piece

@[simp] theorem written_cut (sink : Sink) (room : Nat) (piece : Text) :
    (sink.cut room piece).written = sink.written ++ piece.take room :=
  written_take sink (piece.take room)

theorem write_of_le {piece : Text} (whole : sink.broken = false) (limited : sink.room = some room)
    (fits : piece.length ≤ room) : sink.write piece = .ok (sink.fill room piece) := by
  simp [write, whole, limited, fits, fill]

theorem write_of_gt {piece : Text} (whole : sink.broken = false) (limited : sink.room = some room)
    (long : room < piece.length) : sink.write piece = deny (sink.cut room piece) := by
  simp [write, whole, limited, Nat.not_le.mpr long, cut]

theorem hasRoom_fill (whole : sink.broken = false) (room : Nat) (piece : Text) :
    (sink.fill room piece).HasRoom (room - piece.length) where
  limited := rfl
  broken := by simp [fill, take, whole]

/-- A silent sink takes the part of a piece that fits and has the rest of its room left. -/
theorem write_of_silent (silent : sink.refuses = false) (has : sink.HasRoom room) (piece : Text) :
    ∃ next, sink.write piece = .ok next ∧ next.HasRoom (room - piece.length) ∧
      next.refuses = false ∧ next.written = sink.written ++ piece.take room := by
  cases broken : sink.broken with
  | true =>
    have none := has.broken broken
    subst none
    rw [Nat.zero_sub]
    exact ⟨sink, by simp [write, broken, deny, silent], has, silent, by simp⟩
  | false =>
    by_cases fits : piece.length ≤ room
    · refine ⟨_, write_of_le broken has.limited fits, hasRoom_fill broken room piece, silent, ?_⟩
      rw [written_fill, List.take_of_length_le fits]
    · have long := Nat.lt_of_not_le fits
      have spent : room - piece.length = 0 := Nat.sub_eq_zero_of_le (Nat.le_of_lt long)
      have passes : deny (sink.cut room piece) = .ok (sink.cut room piece) :=
        if_neg (by simp [cut, take, silent])
      rw [write_of_gt broken has.limited long, passes, spent]
      exact ⟨_, rfl, ⟨rfl, fun _ => rfl⟩, silent, written_cut sink room piece⟩

/-- A silent sink takes the front of the text that it has room for. -/
theorem writeAll_of_silent (silent : sink.refuses = false) (has : sink.HasRoom room)
    (pieces : List Text) :
    ∃ next, sink.writeAll pieces = .ok next ∧
      next.written = sink.written ++ pieces.flatten.take room := by
  induction pieces generalizing sink room with
  | nil => exact ⟨sink, rfl, by simp⟩
  | cons piece pieces ih =>
    obtain ⟨middle, taken, left, quiet, first⟩ := write_of_silent silent has piece
    obtain ⟨next, others, rest⟩ := ih quiet left
    refine ⟨next, by rw [writeAll_cons, taken]; exact others, ?_⟩
    rw [rest, first, List.flatten_cons, List.take_append, List.append_assoc]

/-- A sink that is not broken takes a text that fits, whether it refuses others or not. -/
theorem writeAll_of_le (whole : sink.broken = false) (limited : sink.room = some room)
    (fits : pieces.flatten.length ≤ room) :
    ∃ next, sink.writeAll pieces = .ok next ∧ next.written = sink.written ++ pieces.flatten := by
  induction pieces generalizing sink room with
  | nil => exact ⟨sink, rfl, by simp⟩
  | cons piece pieces ih =>
    rw [List.flatten_cons, List.length_append] at fits
    have taken : sink.write piece = .ok (sink.fill room piece) :=
      write_of_le whole limited (by omega)
    obtain ⟨next, others, rest⟩ :=
      @ih (sink.fill room piece) (room - piece.length) whole rfl (by omega)
    refine ⟨next, by rw [writeAll_cons, taken]; exact others, ?_⟩
    rw [rest, written_fill, List.flatten_cons, List.append_assoc]

/-- A sink that refuses takes the front of a longer text that it has room for and stops there. -/
theorem writeAll_of_gt (refuses : sink.refuses = true) (has : sink.HasRoom room)
    (long : room < pieces.flatten.length) :
    ∃ next, sink.writeAll pieces = .error next ∧
      next.written = sink.written ++ pieces.flatten.take room := by
  cases broken : sink.broken with
  | true =>
    have nonempty : pieces ≠ [] := by
      rintro rfl
      simp at long
    exact ⟨sink, writeAll_of_jammed ⟨broken, refuses⟩ nonempty, by simp [has.broken broken]⟩
  | false =>
    induction pieces generalizing sink room with
    | nil => simp at long
    | cons piece pieces ih =>
      rw [List.flatten_cons, List.length_append] at long
      by_cases fits : piece.length ≤ room
      · have taken := write_of_le broken has.limited fits
        obtain ⟨next, others, rest⟩ :=
          @ih (sink.fill room piece) (room - piece.length) refuses (hasRoom_fill broken room piece)
            (by omega) broken
        refine ⟨next, by rw [writeAll_cons, taken]; exact others, ?_⟩
        rw [rest, written_fill, List.flatten_cons, List.take_append, List.take_of_length_le fits,
          List.append_assoc]
      · have beyond := Nat.lt_of_not_le fits
        have stops : deny (sink.cut room piece) = .error (sink.cut room piece) := if_pos refuses
        have front : (piece ++ pieces.flatten).take room = piece.take room := by
          rw [List.take_append, Nat.sub_eq_zero_of_le (Nat.le_of_lt beyond), List.take_zero,
            List.append_nil]
        refine ⟨sink.cut room piece, ?_, ?_⟩
        · rw [writeAll_cons, write_of_gt broken has.limited beyond, stops]
          rfl
        · rw [written_cut, List.flatten_cons, front]

/-- Some piece is the first one to be refused. The pieces before it are taken. -/
theorem exists_refused (refused : sink.writeAll pieces = .error next) :
    ∃ index < pieces.length, (∃ middle, sink.writeAll (pieces.take index) = .ok middle) ∧
      sink.writeAll (pieces.take (index + 1)) = .error next := by
  induction pieces generalizing sink with
  | nil => simp at refused
  | cons piece pieces ih =>
    rw [writeAll_cons] at refused
    cases written : sink.write piece with
    | error stopped =>
      rw [written] at refused
      refine ⟨0, Nat.succ_pos _, ⟨sink, rfl⟩, ?_⟩
      rw [List.take_succ_cons, List.take_zero, writeAll_cons, written]
      exact refused
    | ok middle =>
      rw [written] at refused
      obtain ⟨index, inside, ⟨last, taken⟩, stops⟩ := ih refused
      refine ⟨index + 1, Nat.succ_lt_succ inside, ⟨last, ?_⟩, ?_⟩
      · rw [List.take_succ_cons, writeAll_cons, written]
        exact taken
      · rw [List.take_succ_cons, writeAll_cons, written]
        exact stops

theorem hasRoom_limited (limit : Nat) (refuses : Bool) : (limited limit refuses).HasRoom limit where
  limited := rfl
  broken := by simp [limited]

/-- The limit decides whether a text is refused, and not where it is cut into pieces. -/
theorem writeAll_limited (limit : Nat) (pieces : List Text) :
    ∃ next, next.written = pieces.flatten.take limit ∧ (limited limit true).writeAll pieces =
      if limit < pieces.flatten.length then .error next else .ok next := by
  by_cases long : limit < pieces.flatten.length
  · obtain ⟨next, refused, front⟩ := writeAll_of_gt rfl (hasRoom_limited limit true) long
    refine ⟨next, front, ?_⟩
    rw [if_pos long, refused]
  · have fits := Nat.le_of_not_lt long
    obtain ⟨next, taken, whole⟩ := @writeAll_of_le (limited limit true) limit pieces rfl rfl fits
    refine ⟨next, ?_, ?_⟩
    · rw [List.take_of_length_le fits]
      exact whole
    · rw [if_neg long, taken]

theorem writeAll_limited_error_iff :
    (∃ next, (limited limit true).writeAll pieces = .error next) ↔ limit < pieces.flatten.length := by
  obtain ⟨next, -, sent⟩ := writeAll_limited limit pieces
  rw [sent]
  split <;> simp_all

theorem writeAll_limited_ok_iff :
    (∃ next, (limited limit true).writeAll pieces = .ok next) ↔ pieces.flatten.length ≤ limit := by
  obtain ⟨next, -, sent⟩ := writeAll_limited limit pieces
  rw [sent]
  split <;> simp_all

end TwoWayGrammar.Sink
