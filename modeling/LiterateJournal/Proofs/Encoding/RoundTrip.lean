import LiterateJournal.Proofs.Encoding.Documents
import LiterateJournal.Proofs.Encoding.Reports

/-!
# Decoding undoes encoding

A value of the data model that is encoded and printed as a JSON text is what the text is read as,
unless it nests deeper than texts are followed. Whatever is decoded, its encoding is decoded to the
same again.

## Main definitions

* `RoundTrips` — what is encoded and printed is read back, and what is decoded is so in its
  encoding.

## Main statements

* `roundTrips_of_ofJson?_toJson` — from the encoding and the decoding alone.
* `data_round_trips` — the types of the data model.
-/

namespace LiterateJournal

/-- What is encoded and printed, on one line or on many, is read back if it does not nest too deep
and is refused if it does. What is decoded is decoded to the same from its encoding. -/
structure RoundTrips {α : Type} (InRange : α → Prop) (toJson : α → Json)
    (ofJson? : Json → Option α) : Prop where
  text : ∀ a, InRange a → ∀ text ∈ [(toJson a).render, (toJson a).renderLines],
    (Json.parse? text).bind ofJson? = if (toJson a).depth ≤ Json.maxDepth then some a else none
  canonical : ∀ j a, ofJson? j = some a → InRange a ∧ ofJson? (toJson a) = some a

section

variable {α : Type} {InRange : α → Prop} {toJson : α → Json} {ofJson? : Json → Option α}

/-- The text makes no difference to what is read, but for the depth. -/
theorem roundTrips_of_ofJson?_toJson (hplain : ∀ a, (toJson a).IsPlain)
    (hback : ∀ a, InRange a → ofJson? (toJson a) = some a)
    (hrange : ∀ j a, ofJson? j = some a → InRange a) : RoundTrips InRange toJson ofJson? where
  text a ha text htext := by
    have hread : Json.parse? text =
        if (toJson a).depth ≤ Json.maxDepth then some (toJson a) else none := by
      obtain rfl | rfl : text = (toJson a).render ∨ text = (toJson a).renderLines := by
        simpa using htext
      · exact Json.parse?_render (hplain a)
      · exact Json.parse?_renderLines (hplain a)
    rw [hread]
    split
    · exact hback a ha
    · rfl
  canonical j a h := ⟨hrange j a h, hback a (hrange j a h)⟩

theorem roundTrips_of_forall (hplain : ∀ a, (toJson a).IsPlain)
    (hback : ∀ a, ofJson? (toJson a) = some a) : RoundTrips (fun _ => True) toJson ofJson? :=
  roundTrips_of_ofJson?_toJson hplain (fun a _ => hback a) fun _ _ _ => trivial

end

/-- Decoding undoes encoding for all types of the data model. Numbers are in range where they are
less than the bound of their type. -/
theorem data_round_trips :
    RoundTrips (fun _ => True) Span.toJson Span.ofJson? ∧
    RoundTrips (fun _ => True) Block.toJson Block.ofJson? ∧
    RoundTrips (fun _ => True) LinkTable.toJson LinkTable.ofJson? ∧
    RoundTrips (fun _ => True) Document.toJson Document.ofJson? ∧
    RoundTrips DocumentError.InRange DocumentError.toJson DocumentError.ofJson? ∧
    RoundTrips (fun _ => True) PageEntry.toJson PageEntry.ofJson? ∧
    RoundTrips Outcome.InRange Outcome.toJson Outcome.ofJson? ∧
    RoundTrips BuildReport.InRange BuildReport.toJson BuildReport.ofJson? := by
  refine ⟨?_, ?_, ?_, ?_, ?_, ?_, ?_, ?_⟩
  · exact roundTrips_of_forall Span.isPlain_toJson Span.ofJson?_toJson
  · exact roundTrips_of_forall Block.isPlain_toJson Block.ofJson?_toJson
  · exact roundTrips_of_forall LinkTable.isPlain_toJson LinkTable.ofJson?_toJson
  · exact roundTrips_of_forall Document.isPlain_toJson Document.ofJson?_toJson
  · exact roundTrips_of_ofJson?_toJson DocumentError.isPlain_toJson
      (fun _ => DocumentError.ofJson?_toJson) fun _ _ => DocumentError.inRange_of_ofJson?
  · exact roundTrips_of_forall PageEntry.isPlain_toJson PageEntry.ofJson?_toJson
  · exact roundTrips_of_ofJson?_toJson Outcome.isPlain_toJson (fun _ => Outcome.ofJson?_toJson)
      fun _ _ => Outcome.inRange_of_ofJson?
  · exact roundTrips_of_ofJson?_toJson BuildReport.isPlain_toJson
      (fun _ => BuildReport.ofJson?_toJson) fun _ _ => BuildReport.inRange_of_ofJson?

/-! ### The deepest texts -/

def nestedStrong : Nat → Span
  | 0 => .text "x"
  | n + 1 => .strong [nestedStrong n]

theorem depth_nestedStrong (n : Nat) : (nestedStrong n).toJson.depth = 2 * n + 1 := by
  induction n with
  | zero => rfl
  | succ n ih =>
    simp only [nestedStrong, Span.toJson, Span.listToJson, Json.depth_ofCase, Json.depth,
      Json.depthOfItems, ih]
    omega

/-- The deepest spans that are read back, and an error with the largest number. -/
theorem data_round_trips_deepest :
    (Json.parse? (nestedStrong 63).toJson.render).bind Span.ofJson? = some (nestedStrong 63) ∧
      (Json.parse? (DocumentError.evaluation "a" (2 ^ 64 - 1) "b").toJson.renderLines).bind
        DocumentError.ofJson? = some (.evaluation "a" (2 ^ 64 - 1) "b") := by
  obtain ⟨hspan, -, -, -, herror, -⟩ := data_round_trips
  constructor
  · rw [hspan.text (nestedStrong 63) trivial _ List.mem_cons_self, depth_nestedStrong]
    rfl
  · have hrange : 2 ^ 64 - 1 < countBound := by decide
    rw [herror.text (.evaluation "a" (2 ^ 64 - 1) "b") hrange _
      (List.mem_cons_of_mem _ List.mem_cons_self)]
    rfl

/-- What nests deeper is encoded and printed, and not read back. -/
theorem nestedStrong_not_read :
    ¬ ∀ s : Span, (Json.parse? s.toJson.render).bind Span.ofJson? = some s := by
  intro h
  have hread := h (nestedStrong 64)
  rw [Json.parse?_render (Span.isPlain_toJson _), depth_nestedStrong] at hread
  cases hread

end LiterateJournal
