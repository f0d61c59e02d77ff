import LiterateJournal.Proofs.Site.Account
import LiterateJournal.Proofs.Site.FullBuild
import LiterateJournal.Url.Percent
import Mathlib.Data.List.TakeWhile

/-!
# Where the links of the list of pages lead

A list of pages links each page by the name it has in HTML, whatever the format. The page is always
there, in LaTeX under its own extension. A link is read as a URL, though, so that it leads to a page
in HTML if nothing in its name means anything else in a URL.

## Main definitions

* `referencedFile?` — the file that a relative URL reference names.
* `linkTargets` — the targets of the links in some blocks.
* `Settings.Leads` — a link leads to a file next to the page.

## Main statements

* `referencedFile?_eq_self_iff` — which names stand for themselves.
* `list_links_lead` — where the links of the list of pages lead.
-/

namespace LiterateJournal

/-! ### References -/

namespace Percent

def hasEncodedByte : List Char → Bool
  | '%' :: a :: b :: cs =>
    (hexValue? a).isSome && (hexValue? b).isSome || hasEncodedByte (a :: b :: cs)
  | _ :: cs => hasEncodedByte cs
  | [] => false

/-- A text does not get longer when its encoded bytes are decoded, and shorter if there are any. -/
theorem length_decode (cs : List Char) :
    (decode cs).length ≤ (cs.flatMap String.utf8EncodeChar).length ∧
      (hasEncodedByte cs = true →
        (decode cs).length < (cs.flatMap String.utf8EncodeChar).length) := by
  have hpercent : (String.utf8EncodeChar '%').length = 1 := rfl
  fun_induction decode cs with
  | case1 a b cs x y hx hy ih =>
    have ha := List.length_pos_iff.2 (String.utf8EncodeChar_ne_nil (c := a))
    simp only [List.flatMap_cons, List.length_append, List.length_cons]
    omega
  | case2 a b cs hne ih =>
    have hnone : ((hexValue? a).isSome && (hexValue? b).isSome) = false := by
      cases ha : hexValue? a with
      | none => rfl
      | some x =>
        cases hb : hexValue? b with
        | none => rfl
        | some y => exact (hne x y ha hb).elim
    rw [hasEncodedByte, hnone, Bool.false_or, List.flatMap_cons, List.length_append, hpercent,
      List.length_cons]
    exact ⟨by omega, fun h => by have := ih.2 h; omega⟩
  | case3 c cs hne ih =>
    rw [hasEncodedByte.eq_2 _ _ hne, List.flatMap_cons, List.length_append, List.length_append]
    exact ⟨by omega, fun h => by have := ih.2 h; omega⟩
  | case4 => exact ⟨Nat.le_refl _, fun h => by cases h⟩

theorem decode_eq_self {cs : List Char} (h : hasEncodedByte cs = false) :
    decode cs = cs.flatMap String.utf8EncodeChar := by
  fun_induction decode cs with
  | case1 a b cs x y hy hx ih => simp [hasEncodedByte, hx, hy] at h
  | case2 a b cs hne ih =>
    rw [hasEncodedByte, Bool.or_eq_false_iff] at h
    rw [ih h.2, List.flatMap_cons]
    rfl
  | case3 c cs hne ih =>
    rw [hasEncodedByte.eq_2 _ _ hne] at h
    rw [ih h, List.flatMap_cons]
  | case4 => rfl

end Percent

/-- Whether a reference starts with a scheme, so that it is not relative. -/
def hasScheme (reference : List Char) : Bool :=
  let start := reference.takeWhile fun c => c.isAlphanum || "+-.".toList.contains c
  start.head?.any Char.isAlpha && (reference.drop start.length).head? = some ':'

/-- The path of a reference: all before a query or fragment. -/
def pathOfReference (reference : List Char) : List Char :=
  reference.takeWhile fun c => !(c = '#' || c = '?')

/-- The file that a relative URL reference names, as seen from the directory of the page. -/
def referencedFile? (reference : String) : Option String :=
  if hasScheme reference.toList then none
  else String.fromUTF8? (Percent.decode (pathOfReference reference.toList)).toByteArray

/-- A name without anything that has another meaning in a URL. -/
structure IsPlainReference (name : String) : Prop where
  not_hasScheme : hasScheme name.toList = false
  number_notMem : '#' ∉ name.toList
  question_notMem : '?' ∉ name.toList
  not_hasEncodedByte : Percent.hasEncodedByte name.toList = false

theorem fromUTF8?_eq_some_iff {bytes : ByteArray} {s : String} :
    String.fromUTF8? bytes = some s ↔ bytes = s.toByteArray := by
  unfold String.fromUTF8?
  constructor
  · intro h
    split at h
    · cases h
      rfl
    · cases h
  · rintro rfl
    rw [dif_pos s.isValidUTF8]
    rfl

theorem toByteArray_eq (s : String) :
    s.toByteArray = (s.toList.flatMap String.utf8EncodeChar).toByteArray :=
  String.utf8Encode_toList.symm

theorem pathOfReference_prefix (cs : List Char) : pathOfReference cs <+: cs :=
  List.takeWhile_prefix _

theorem pathOfReference_eq_self_iff {cs : List Char} :
    pathOfReference cs = cs ↔ '#' ∉ cs ∧ '?' ∉ cs := by
  rw [pathOfReference, List.takeWhile_eq_self_iff]
  constructor
  · intro h
    exact ⟨fun hmem => absurd (h _ hmem) (by decide), fun hmem => absurd (h _ hmem) (by decide)⟩
  · rintro ⟨hnumber, hquestion⟩ c hc
    have hne : c ≠ '#' := fun heq => hnumber (heq ▸ hc)
    have hne' : c ≠ '?' := fun heq => hquestion (heq ▸ hc)
    simp [hne, hne']

/-- The names that stand for themselves in a URL. -/
theorem referencedFile?_eq_self_iff {name : String} :
    referencedFile? name = some name ↔ IsPlainReference name := by
  unfold referencedFile?
  constructor
  · intro h
    obtain ⟨hscheme, h⟩ := Option.ite_none_left_eq_some.1 h
    rw [fromUTF8?_eq_some_iff, toByteArray_eq] at h
    have hlength := congrArg ByteArray.size h
    simp only [List.size_toByteArray] at hlength
    -- nothing has been cut off or decoded, or else there would be fewer bytes
    obtain ⟨rest, hrest⟩ := pathOfReference_prefix name.toList
    obtain ⟨hle, hlt⟩ := Percent.length_decode (pathOfReference name.toList)
    have hsum : (name.toList.flatMap String.utf8EncodeChar).length =
        ((pathOfReference name.toList).flatMap String.utf8EncodeChar).length +
          (rest.flatMap String.utf8EncodeChar).length := by
      rw [← List.length_append, ← List.flatMap_append, hrest]
    have hnil : rest = [] := by
      cases rest with
      | nil => rfl
      | cons c cs =>
        have hc := List.length_pos_iff.2 (String.utf8EncodeChar_ne_nil (c := c))
        rw [List.flatMap_cons, List.length_append] at hsum
        omega
    have hpath : pathOfReference name.toList = name.toList := by
      rw [hnil, List.append_nil] at hrest
      exact hrest
    obtain ⟨hnumber, hquestion⟩ := pathOfReference_eq_self_iff.1 hpath
    refine ⟨Bool.eq_false_iff.2 hscheme, hnumber, hquestion, Bool.eq_false_iff.2 fun hencoded => ?_⟩
    rw [hpath] at hlt hlength
    exact absurd (hlt hencoded) (by omega)
  · intro h
    rw [if_neg (by rw [h.not_hasScheme]; exact Bool.false_ne_true), fromUTF8?_eq_some_iff,
      pathOfReference_eq_self_iff.2 ⟨h.number_notMem, h.question_notMem⟩,
      Percent.decode_eq_self h.not_hasEncodedByte, toByteArray_eq]

/-! ### The list of pages -/

def Span.linkTarget? : Span → Option String
  | .link _ url _ => some url
  | _ => none

/-- The targets of the links in some blocks, in the order of the text. -/
def linkTargets (blocks : List Block) : List String := (spansOf blocks).filterMap Span.linkTarget?

def PageEntry.item (e : PageEntry) : List Block :=
  [.paragraph [.link [.text e.title] e.fileName none]]

theorem dropTitlesInCells_items (entries : List PageEntry) :
    dropTitlesInCells (entries.map PageEntry.item) = entries.map PageEntry.item := by
  induction entries with
  | nil => rfl
  | cons e es ih =>
    rw [List.map_cons, dropTitlesInCells, ih]
    rfl

/-- Each item of the list of pages links its page by its name, in both formats. -/
theorem linkTargets_indexBlocks (s : Settings) (entries : List PageEntry) :
    linkTargets (s.indexBlocks entries) = entries.map PageEntry.fileName := by
  have hitems : (spansInCells (entries.map PageEntry.item)).filterMap Span.linkTarget? =
      entries.map PageEntry.fileName := by
    rw [show entries.map PageEntry.item = entries.map fun e =>
      [.paragraph [.link [.text e.title] e.fileName none]] from rfl, spansInCells_items]
    induction entries with
    | nil => rfl
    | cons e es ih =>
      rw [List.flatMap_cons, List.filterMap_append, ih]
      rfl
  have hhtml : (indexDocument entries s.landingTitle).blocks =
      [.heading 1 [.text s.landingTitle], .list .bulleted (entries.map PageEntry.item)] := rfl
  have hlatex : dropTitles (indexDocument entries s.landingTitle).blocks =
      [.list .bulleted (entries.map PageEntry.item)] := by
    rw [hhtml, dropTitles, if_pos (by rfl), dropTitles, if_neg (by simp [Block.isTitle]),
      Block.dropTitles, dropTitlesInCells_items, dropTitles]
  unfold linkTargets Settings.indexBlocks
  cases s.format with
  | html =>
    simp only [hhtml, spansOf, Block.spans, List.append_nil, List.filterMap_append, hitems]
    rfl
  | latex => simp only [hlatex, spansOf, Block.spans, List.append_nil, hitems]

def Settings.Leads (s : Settings) (files : FileTree) (target : String) : Prop :=
  ∃ name, referencedFile? target = some name ∧
    (files.contentAt? (Path.join s.output name)).isSome = true

/-- The links of the list of pages, where it has been written. Each is the name that the page of a
document has in HTML, whatever the format, and that page is there, in LaTeX with its own extension.
In HTML the link leads to it if its name stands for itself in a URL. -/
theorem list_links_lead {s : Settings} {w w' : World} {r : BuildReport}
    (hb : Run.Returns (build s) w r w') (hw : w.files.WellFormed)
    (hlist : s.ListsPages (w.prepared s).files r.entries) :
    (∃ template, (w.prepared s).files.readText (templatePath s.stylesDirectory s.format) =
        .ok template ∧
      s.indexContent? w'.files = some (.text (s.indexText template r.entries))) ∧
    ∀ target ∈ linkTargets (s.indexBlocks r.entries),
      (∃ path ∈ s.documents (w.prepared s).files, target = pageName path) ∧
      s.HasPage w'.files target ∧
      (s.format = .html → IsPlainReference target → s.Leads w'.files target) := by
  obtain ⟨start, built, h⟩ := returns_build.1 hb
  obtain rfl := prepared_eq h.prepared
  obtain ⟨l, hl⟩ := prepared_of_returns hw h.prepared
  constructor
  · obtain ⟨hchosen, -⟩ | ⟨-, -, template, copies, blocks, can, htemplate, hfiles⟩ :=
      h.landing_cases hl
    · rw [entryChoice?_eq_none_iff.2 hlist] at hchosen
      cases hchosen
    · rw [hfiles]
      exact ⟨template, htemplate, indexContent?_render ((h.evolves hl).directoryAt hl.output) can⟩
  · rw [linkTargets_indexBlocks]
    intro target htarget
    obtain ⟨entry, hentry, rfl⟩ := List.mem_map.1 htarget
    have hpage := h.hasPage_of_mem hl hentry
    refine ⟨h.exists_document hentry, hpage, fun hhtml hplain => ?_⟩
    refine ⟨_, referencedFile?_eq_self_iff.2 hplain, ?_⟩
    rwa [Settings.HasPage, hhtml] at hpage

/-- A site of two documents, one of which has a number sign in its name. -/
def numberedSite : World where
  files := .ofEntries [
    (⟨false, ["out"]⟩, .directory 1),
    (⟨false, ["out", "styles"]⟩, .directory 1),
    (⟨false, ["out", "styles", "template.html"]⟩, .file (.text "\x7bdocument\x7d") 1),
    (⟨false, ["out", "styles", "template.tex"]⟩, .file (.text "\x7bcontents\x7d") 1),
    (⟨false, ["src"]⟩, .directory 1),
    (⟨false, ["src", "a#1.md"]⟩, .file (.text "# A") 1),
    (⟨false, ["src", "b.md"]⟩, .file (.text "# B") 1)]
  clock := 10
  web := fun _ => .dropped
  requests := []
  progress := []

def settingsFor (f : OutputFormat) : Settings where
  root := "src"
  output := "out"
  format := f

theorem wellFormed_numberedSite : numberedSite.files.WellFormed :=
  FileTree.wellFormed_ofEntries (by decide)

/-- Both documents get a page, and no document is the entry by its name. -/
theorem result_numberedSite : ∀ f ∈ [OutputFormat.html, .latex],
    let w' := (Run.result (build (settingsFor f)) numberedSite).2
    (Run.result (build (settingsFor f)) numberedSite).1.toOption.map
        (fun r => r.entries.map PageEntry.fileName) = some ["a#1.html", "b.html"] ∧
      defaultSource? ((settingsFor f).sources (numberedSite.prepared (settingsFor f)).files) =
        none ∧
      (w'.files.contentAt? "out/a").isSome = false ∧
      (w'.files.contentAt? "out/b.html").isSome = decide (f = .html) := by
  decide +kernel

theorem listsPages_of_two {s : Settings} {files : FileTree} {entries : List PageEntry}
    {names : List String} (hentries : entries.map PageEntry.fileName = names)
    (htwo : 2 ≤ names.length) (hdefault : defaultSource? (s.sources files) = none) :
    s.ListsPages files entries := by
  have hlength : 2 ≤ entries.length := by
    rw [← List.length_map, hentries]
    exact htwo
  refine ⟨by omega, fun hnil => ?_, hdefault, fun hnil => ?_⟩ <;>
  · rw [hnil] at hlength
    exact absurd hlength (by decide)

/-- The link to the document with a plain name leads to its page in HTML. -/
theorem list_links_lead_numberedSite : ∃ r w',
    Run.Returns (build (settingsFor .html)) numberedSite r w' ∧
      "b.html" ∈ linkTargets ((settingsFor .html).indexBlocks r.entries) ∧
      (settingsFor .html).Leads w'.files "b.html" := by
  obtain ⟨hresult, hdefault, -⟩ := result_numberedSite .html List.mem_cons_self
  obtain ⟨r, hr, hentries⟩ := Run.exists_returns hresult
  have hlinks := (list_links_lead hr wellFormed_numberedSite
    (listsPages_of_two hentries (by decide) hdefault)).2
  have hmem : "b.html" ∈ linkTargets ((settingsFor .html).indexBlocks r.entries) := by
    rw [linkTargets_indexBlocks, hentries]
    decide
  exact ⟨r, _, hr, hmem,
    (hlinks "b.html" hmem).2.2 rfl ⟨by decide, by decide, by decide, by decide⟩⟩

def ListLinksLead (f : OutputFormat) : Prop :=
  ∀ (s : Settings) (w w' : World) (r : BuildReport), s.format = f →
    Run.Returns (build s) w r w' → w.files.WellFormed →
    s.ListsPages (w.prepared s).files r.entries →
    ∀ target ∈ linkTargets (s.indexBlocks r.entries), s.Leads w'.files target

/-- If all links led to files, those of the site with a number sign would. -/
theorem isSome_of_listLinksLead {f : OutputFormat} (h : ListLinksLead f) {target : String}
    (htarget : target ∈ ["a#1.html", "b.html"]) {name : String}
    (hname : referencedFile? target = some name) :
    ((Run.result (build (settingsFor f)) numberedSite).2.files.contentAt?
      (Path.join "out" name)).isSome = true := by
  obtain ⟨hresult, hdefault, -⟩ := result_numberedSite f (by cases f <;> simp)
  obtain ⟨r, hr, hentries⟩ := Run.exists_returns hresult
  have hleads := h (settingsFor f) numberedSite _ r rfl hr wellFormed_numberedSite
    (listsPages_of_two hentries (by decide) hdefault)
  rw [linkTargets_indexBlocks, hentries] at hleads
  obtain ⟨name', hname', hfile⟩ := hleads target htarget
  obtain rfl : name = name' := Option.some.inj (hname.symm.trans hname')
  exact hfile

/-- In neither format all links of the list of pages lead to files: in LaTeX the pages have another
extension, and in HTML a number sign ends the name of the file. -/
theorem list_links_astray : ¬ ListLinksLead .latex ∧ ¬ ListLinksLead .html := by
  constructor
  · intro h
    have hname : referencedFile? "b.html" = some "b.html" := by decide
    have hfile := isSome_of_listLinksLead h (by decide) hname
    obtain ⟨-, -, -, hmissing⟩ := result_numberedSite .latex (by simp)
    exact absurd (hfile.symm.trans hmissing) (by decide)
  · intro h
    have hname : referencedFile? "a#1.html" = some "a" := by decide
    have hfile := isSome_of_listLinksLead h (by decide) hname
    obtain ⟨-, -, hmissing, -⟩ := result_numberedSite .html (by simp)
    exact absurd (hfile.symm.trans hmissing) (by decide)

end LiterateJournal
