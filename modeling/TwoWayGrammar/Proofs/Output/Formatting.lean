import TwoWayGrammar.Proofs.Decimal.Rendering
import TwoWayGrammar.Proofs.Output.Prefix

namespace TwoWayGrammar

namespace Text

variable {text buffer behind : Text}

theorem untilNul_append (inside : '\x00' ∉ text) : untilNul (text ++ '\x00' :: behind) = text := by
  have all : ∀ character ∈ text, (character ≠ '\x00' : Bool) = true := by
    intro character member
    rw [decide_eq_true_eq]
    rintro rfl
    exact inside member
  rw [untilNul, List.takeWhile_append_of_pos all]
  simp

/-- A buffer and the terminator behind it are split at the first terminator of all. -/
theorem exists_untilNul_append (buffer : Text) :
    '\x00' ∉ untilNul buffer ∧ ∃ behind, buffer ++ ['\x00'] = untilNul buffer ++ '\x00' :: behind := by
  induction buffer with
  | nil => exact ⟨List.not_mem_nil, [], rfl⟩
  | cons first buffer ih =>
    by_cases ends : first = '\x00'
    · subst ends
      exact ⟨List.not_mem_nil, buffer ++ ['\x00'], rfl⟩
    · obtain ⟨inside, behind, split⟩ := ih
      have further : untilNul (first :: buffer) = first :: untilNul buffer :=
        List.takeWhile_cons_of_pos (decide_eq_true ends)
      rw [further]
      refine ⟨?_, behind, congrArg (first :: ·) split⟩
      simpa [eq_comm] using ⟨ends, inside⟩

theorem untilNul_eq_iff :
    untilNul buffer = text ↔ '\x00' ∉ text ∧ ∃ behind, buffer ++ ['\x00'] = text ++ '\x00' :: behind := by
  obtain ⟨inside, behind, split⟩ := exists_untilNul_append buffer
  constructor
  · rintro rfl
    exact ⟨inside, behind, split⟩
  · rintro ⟨others, last, again⟩
    calc untilNul buffer
      _ = untilNul (untilNul buffer ++ '\x00' :: behind) := (untilNul_append inside).symm
      _ = untilNul (text ++ '\x00' :: last) := by rw [← split, again]
      _ = text := untilNul_append others

end Text

namespace FormatItem

variable {item : FormatItem} {items : List FormatItem} {text : Text} {texts : List Text}

/-- An integer is one of its type. -/
def InType : FormatItem → Prop
  | .integer type value => type.Holds value
  | _ => True

/-- The text of an item. An integer of any width shows its shortest numeral. A buffer ends at the first
terminator in it or else at the one behind it, while a text may have such characters inside. -/
inductive Shows : FormatItem → Text → Prop
  | char (character : Char) : Shows (.char character) [character]
  | yes : Shows (.bool true) ['t', 'r', 'u', 'e']
  | no : Shows (.bool false) ['f', 'a', 'l', 's', 'e']
  | integer {type : IntegerType} {value : Int} {text : Text} (shortest : text.IsShortest)
      (denotes : Text.integer text.isNegative text.unsigned = value) : Shows (.integer type value) text
  | terminated {buffer text behind : Text} (inside : '\x00' ∉ text)
      (split : buffer ++ ['\x00'] = text ++ '\x00' :: behind) : Shows (.terminated buffer) text
  | text (content : Text) : Shows (.text content) content
  | lineEnd : Shows .lineEnd ['\n']

/-- Every item has one text, and that is the one it is sent as. -/
theorem shows_iff (belongs : item.InType) : item.Shows text ↔ item.render = text := by
  constructor
  · intro shows
    cases shows with
    | integer shortest denotes => exact (IntegerType.render_eq_iff belongs).mpr ⟨shortest, denotes⟩
    | terminated inside split => exact Text.untilNul_eq_iff.mpr ⟨inside, _, split⟩
    | _ => rfl
  · rintro rfl
    cases item with
    | char character => exact .char character
    | bool value =>
      cases value with
      | true => exact .yes
      | false => exact .no
    | integer type value =>
      obtain ⟨shortest, denotes⟩ := (IntegerType.render_eq_iff belongs).mp rfl
      exact .integer shortest denotes
    | terminated buffer =>
      obtain ⟨inside, behind, split⟩ := Text.exists_untilNul_append buffer
      exact .terminated inside split
    | text content => exact .text content
    | lineEnd => exact .lineEnd

theorem forall₂_shows_iff (belong : ∀ item ∈ items, item.InType) :
    List.Forall₂ Shows items texts ↔ items.map render = texts := by
  induction items generalizing texts with
  | nil =>
    constructor
    · rintro ⟨⟩
      rfl
    · rintro rfl
      exact .nil
  | cons item items ih =>
    obtain ⟨belongs, others⟩ := List.forall_mem_cons.mp belong
    constructor
    · intro shown
      cases shown with
      | cons shows rest => rw [List.map_cons, (shows_iff belongs).mp shows, (ih others).mp rest]
    · rintro rfl
      exact .cons ((shows_iff belongs).mpr rfl) ((ih others).mpr rfl)

/-- Items with their texts, sent to a sink that takes so many characters. -/
structure Sent (items : List FormatItem) (texts : List Text) (limit : Nat) : Prop where
  shown : List.Forall₂ Shows items texts
  unique : ∀ others, List.Forall₂ Shows items others → others = texts
  /-- A silent sink takes the front of the whole text. -/
  silent : ∃ next, send (.limited limit false) items = .ok next ∧
    next.written = texts.flatten.take limit
  /-- A sink that refuses takes the same front, whether it comes to a refusal or not. -/
  taken : (eitherWay (send (.limited limit true) items)).written = texts.flatten.take limit
  refused_iff : (∃ next, send (.limited limit true) items = .error next) ↔ limit < texts.flatten.length
  /-- It refuses the first item whose text ends beyond the limit. What comes behind that item makes no
  difference. -/
  stops : ∀ next, send (.limited limit true) items = .error next → ∃ index < items.length,
    (texts.take index).flatten.length ≤ limit ∧ limit < (texts.take (index + 1)).flatten.length ∧
      (∃ middle, send (.limited limit true) (items.take index) = .ok middle) ∧
        ∀ others, send (.limited limit true) (items.take (index + 1) ++ others) = .error next

/-- Integers of their types, and items of any other kind, go out as their texts up to the limit of the
sink. -/
theorem exists_sent (belong : ∀ item ∈ items, item.InType) (limit : Nat) :
    ∃ texts, Sent items texts limit := by
  have shown (others : List Text) : List.Forall₂ Shows items others ↔ items.map render = others :=
    forall₂_shows_iff belong
  refine ⟨items.map render, (shown _).mpr rfl, fun others alike => ((shown others).mp alike).symm, ?_, ?_,
    Sink.writeAll_limited_error_iff, ?_⟩
  · exact Sink.writeAll_of_silent rfl (Sink.hasRoom_limited limit false) (items.map render)
  · obtain ⟨next, front, sent⟩ := Sink.writeAll_limited limit (items.map render)
    rw [send, sent, ← front]
    split <;> rfl
  · intro next refused
    obtain ⟨index, inside, taken, stops⟩ := Sink.exists_refused refused
    rw [List.length_map] at inside
    refine ⟨index, inside, Sink.writeAll_limited_ok_iff.mp taken,
      Sink.writeAll_limited_error_iff.mp ⟨next, stops⟩, ?_, fun others => ?_⟩
    · rw [← List.map_take] at taken
      exact taken
    · rw [← List.map_take] at stops
      rw [send, List.map_append]
      exact Sink.writeAll_append_of_error stops (others.map render)

/-- Eight characters are the least integer of eight bits with a letter on each side, a terminator that is
part of a text, and the first letter of a truth value. -/
theorem exists_sent_eight :
    let items : List FormatItem := [.char 'n', .integer ⟨.bits8, true⟩ (-128), .terminated ['x', '\x00', 'y'],
      .text ['\x00'], .bool false, .lineEnd]
    let front := ['n', '-', '1', '2', '8', 'x', '\x00', 'f']
    (∀ item ∈ items, item.InType) ∧
    (∃ next, send (.limited 8 true) items = .error next ∧ next.written = front) ∧
    (∃ next, send (.limited 8 false) items = .ok next ∧ next.written = front) := by
  intro items front
  have least : (⟨.bits8, true⟩ : IntegerType).Holds (-128) := by decide
  have belong : ∀ item ∈ items, item.InType := by
    simp only [items, List.forall_mem_cons]
    exact ⟨trivial, least, trivial, trivial, trivial, trivial, by simp⟩
  obtain ⟨texts, sent⟩ := exists_sent belong 8
  have numeral : Shows (.integer ⟨.bits8, true⟩ (-128)) ['-', '1', '2', '8'] :=
    .integer ⟨by decide, by decide, by decide⟩ (by decide)
  have shown : List.Forall₂ Shows items
      [['n'], ['-', '1', '2', '8'], ['x'], ['\x00'], ['f', 'a', 'l', 's', 'e'], ['\n']] :=
    .cons (.char 'n') (.cons numeral (.cons (.terminated (by decide) rfl)
      (.cons (.text _) (.cons .no (.cons .lineEnd .nil)))))
  obtain rfl := sent.unique _ shown
  refine ⟨belong, ?_, sent.silent⟩
  obtain ⟨next, refused⟩ := sent.refused_iff.mpr (by decide)
  refine ⟨next, refused, ?_⟩
  have taken := sent.taken
  rw [refused] at taken
  exact taken

end FormatItem

end TwoWayGrammar
