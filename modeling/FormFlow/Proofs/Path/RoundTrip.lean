import Mathlib.Tactic.SplitIfs
import FormFlow.Path.Pattern

/-!
# Written paths, read again

Which patterns and locations are read again from their own text: those whose names are single
segments that are not taken for anything but names (`IsLegible`). Whatever is read from a text is
one of these, so its own text, as it may appear in a message, stands for it alone
(`reading_canonical`).

Empty segments are kept in a pattern, but for the pattern of one empty name, which is written as the
root with a full stop. In a location they are skipped. A location also loses the spelling of its
numerals, and keeps the numbers.
-/

namespace FormFlow

/-! ### Patterns -/

namespace Token

variable {token : Token} {segment : List Char}

/-- `*`, `^`, or a name of one segment that is neither of them. -/
def IsLegible : Token → Prop
  | .key name => '.' ∉ name.toList ∧ name ≠ "*" ∧ name ≠ "^"
  | .each | .same => True

theorem IsLegible.stop_not_mem (h : token.IsLegible) : '.' ∉ token.print.toList := by
  cases token with
  | key name => exact h.1
  | each => decide
  | same => decide

theorem IsLegible.read_print (h : token.IsLegible) : read token.print.toList = token := by
  cases token with
  | key name =>
    obtain ⟨-, heach, hsame⟩ := h
    have heach' : name.toList ≠ ['*'] := fun heq => heach (String.toList_injective heq)
    have hsame' : name.toList ≠ ['^'] := fun heq => hsame (String.toList_injective heq)
    rw [print, read, if_neg heach', if_neg hsame', String.ofList_toList]
  | each => rfl
  | same => rfl

theorem isLegible_read (h : '.' ∉ segment) : (read segment).IsLegible := by
  unfold read
  split_ifs with heach hsame
  · trivial
  · trivial
  · refine ⟨by rwa [String.toList_ofList], fun heq => heach ?_, fun heq => hsame ?_⟩
    · exact String.ofList_injective heq
    · exact String.ofList_injective heq

theorem eq_nil_of_read (h : read segment = .key "") : segment = [] := by
  unfold read at h
  split_ifs at h
  exact String.ofList_injective (Token.key.inj h)

end Token

namespace Pattern

variable {pattern : Pattern}

/-- The tokens are legible, and they are not one empty name alone. -/
structure IsLegible (pattern : Pattern) : Prop where
  tokens : ∀ token ∈ pattern, token.IsLegible
  ne_nameless : pattern ≠ [.key ""]

/-- The segments in which a pattern is written. -/
def segments (pattern : Pattern) : List (List Char) := pattern.map fun token => token.print.toList

theorem segments_ne_nil (hne : pattern ≠ []) : pattern.segments ≠ [] :=
  mt List.map_eq_nil_iff.mp hne

theorem toList_print (hne : pattern ≠ []) :
    pattern.print.toList = '$' :: '.' :: Text.glue pattern.segments := by
  rw [← Text.flatMap_stop (segments_ne_nil hne), print, String.toList_ofList, segments,
    List.flatMap_map]

theorem IsLegible.cut_glue (h : pattern.IsLegible) (hne : pattern ≠ []) :
    Text.cut (Text.glue pattern.segments) = pattern.segments := by
  refine Text.cut_glue (segments_ne_nil hne) fun segment hsegment => ?_
  obtain ⟨token, htoken, rfl⟩ := List.mem_map.mp hsegment
  exact (h.tokens token htoken).stop_not_mem

theorem IsLegible.map_read (h : pattern.IsLegible) : pattern.segments.map Token.read = pattern := by
  rw [segments, List.map_map]
  refine (List.map_congr_left fun token htoken => ?_).trans (List.map_id pattern)
  exact (h.tokens token htoken).read_print

/-- Behind the root and a full stop nothing is written but for one empty name. -/
theorem IsLegible.glue_ne_nil (h : pattern.IsLegible) (hne : pattern ≠ []) :
    Text.glue pattern.segments ≠ [] := by
  intro hnil
  have hone : pattern.segments = [[]] :=
    (Text.glue_eq_nil_iff.mp hnil).resolve_left (segments_ne_nil hne)
  refine h.ne_nameless ?_
  rw [← h.map_read, hone]
  rfl

theorem IsLegible.read_print (h : pattern.IsLegible) : read pattern.print = pattern := by
  by_cases hnil : pattern = []
  · subst hnil
    rfl
  · unfold read
    rw [toList_print hnil]
    simp only [if_neg (h.glue_ne_nil hnil), h.cut_glue hnil]
    exact h.map_read

theorem isLegible_read (text : String) : (read text).IsLegible := by
  obtain ⟨body, hread⟩ : ∃ body, read text =
      if body = [] then [] else (Text.cut body).map Token.read := ⟨_, rfl⟩
  rw [hread]
  split_ifs with hbody
  · exact ⟨nofun, nofun⟩
  · refine ⟨fun token htoken => ?_, fun hnameless => hbody ?_⟩
    · obtain ⟨segment, hsegment, rfl⟩ := List.mem_map.mp htoken
      exact Token.isLegible_read (Text.stop_not_mem_of_mem_cut hsegment)
    · obtain ⟨segment, hcut, hsegment⟩ := List.map_eq_singleton_iff.mp hnameless
      rw [← Text.glue_cut body, hcut, Token.eq_nil_of_read hsegment]
      rfl

theorem read_print_eq_self_iff : read pattern.print = pattern ↔ pattern.IsLegible :=
  ⟨fun h => h ▸ isLegible_read pattern.print, IsLegible.read_print⟩

end Pattern

/-! ### Locations -/

namespace Step

variable {step : Step} {segment : List Char}

/-- An index that a numeral can denote, or a name of one segment that is no numeral. -/
def IsLegible : Step → Prop
  | .field name => name ≠ "" ∧ '.' ∉ name.toList ∧ Text.readIndex name.toList = none
  | .index position => position ≤ Text.maxIndex

theorem IsLegible.stop_not_mem (h : step.IsLegible) : '.' ∉ step.name.toList := by
  cases step with
  | field name => exact h.2.1
  | index position =>
    rw [name, Text.Natural.print, String.toList_ofList]
    exact Text.Natural.stop_not_mem_digits position

theorem IsLegible.name_ne_nil (h : step.IsLegible) : step.name.toList ≠ [] := by
  cases step with
  | field name => exact fun heq => h.1 (String.toList_injective heq)
  | index position =>
    rw [name, Text.Natural.print, String.toList_ofList]
    exact Text.Natural.digits_ne_nil position

theorem IsLegible.read_name (h : step.IsLegible) : read step.name.toList = step := by
  cases step with
  | field name =>
    have hread : Text.readIndex (Step.field name).name.toList = none := h.2.2
    rw [read, hread, Step.name, String.ofList_toList]
  | index position =>
    have hread : Text.readIndex (Step.index position).name.toList = some position := by
      rw [name, Text.Natural.print, String.toList_ofList]
      exact Text.readIndex_digits h
    rw [read, hread]

theorem isLegible_read (hstop : '.' ∉ segment) (hne : segment ≠ []) :
    (read segment).IsLegible := by
  unfold read
  split
  · next position hread => exact Text.readIndex_le hread
  · next hread =>
    refine ⟨fun heq => hne (String.ofList_injective heq), ?_, ?_⟩
    · rwa [String.toList_ofList]
    · rwa [String.toList_ofList]

end Step

namespace Location

variable {location : Location}

def IsLegible (location : Location) : Prop := ∀ step ∈ location, step.IsLegible

theorem cut_print (hne : location ≠ []) (hstops : ∀ step ∈ location, '.' ∉ step.name.toList) :
    Text.cut location.print.toList = location.map fun step => step.name.toList := by
  rw [print, String.toList_ofList]
  refine Text.cut_glue (mt List.map_eq_nil_iff.mp hne) fun segment hsegment => ?_
  obtain ⟨step, hstep, rfl⟩ := List.mem_map.mp hsegment
  exact hstops step hstep

theorem IsLegible.read_print (h : location.IsLegible) : read location.print = location := by
  by_cases hnil : location = []
  · subst hnil
    rfl
  · have hkept : ∀ segment ∈ location.map fun step => step.name.toList, segment ≠ [] := by
      intro segment hsegment
      obtain ⟨step, hstep, rfl⟩ := List.mem_map.mp hsegment
      exact (h step hstep).name_ne_nil
    rw [read, cut_print hnil fun step hstep => (h step hstep).stop_not_mem,
      List.filter_eq_self.mpr fun segment hsegment => decide_eq_true (hkept segment hsegment),
      List.map_map]
    exact (List.map_congr_left fun step hstep => (h step hstep).read_name).trans
      (List.map_id location)

theorem isLegible_read (text : String) : (read text).IsLegible := by
  intro step hstep
  obtain ⟨segment, hsegment, rfl⟩ := List.mem_map.mp hstep
  obtain ⟨hcut, hne⟩ := List.mem_filter.mp hsegment
  exact Step.isLegible_read (Text.stop_not_mem_of_mem_cut hcut) (of_decide_eq_true hne)

theorem read_print_eq_self_iff : read location.print = location ↔ location.IsLegible :=
  ⟨fun h => h ▸ isLegible_read location.print, IsLegible.read_print⟩

end Location

/-! ### Reading and writing -/

/-- What has been read is read again from its own text, be it a pattern or a location. The patterns
and locations that are read again from their text are those that are legible, and no others. -/
theorem reading_canonical :
    (∀ text, Pattern.read (Pattern.read text).print = Pattern.read text) ∧
    (∀ text, Location.read (Location.read text).print = Location.read text) ∧
    (∀ pattern, Pattern.read (Pattern.print pattern) = pattern ↔ pattern.IsLegible) ∧
    ∀ location, Location.read (Location.print location) = location ↔ location.IsLegible :=
  ⟨fun text => (Pattern.isLegible_read text).read_print,
    fun text => (Location.isLegible_read text).read_print,
    fun _ => Pattern.read_print_eq_self_iff, fun _ => Location.read_print_eq_self_iff⟩

/-! Empty segments and other spellings of numerals, as they are read. -/

example : Pattern.read "$..01.^" = [.key "", .key "01", .same] ∧
    Location.read "a..01.+2" = [.field "a", .index 1, .index 2] := by decide

end FormFlow
