import Mathlib.Data.List.Basic
import RuleForest.Log.Redaction
import RuleForest.Proofs.Splitting
import RuleForest.Proofs.Trimming

namespace RuleForest

section FirstOccurrences

variable {α : Type} [BEq α] [LawfulBEq α]

theorem pairwise_idxOf_eraseDups (p : α → Bool) (xs : List α) :
    (xs.filter p).eraseDups.Pairwise fun a b => xs.idxOf a < xs.idxOf b := by
  induction xs generalizing p with
  | nil => exact .nil
  | cons x xs ih =>
    have hlater (q : α → Bool) (hq : ∀ a, q a → x ≠ a) :
        (xs.filter q).eraseDups.Pairwise fun a b => (x :: xs).idxOf a < (x :: xs).idxOf b := by
      refine (ih q).imp_of_mem fun {a b} ha hb hab => ?_
      have hne {a : α} (ha : a ∈ (xs.filter q).eraseDups) : x ≠ a :=
        hq a (List.mem_filter.mp (List.mem_eraseDups.mp ha)).2
      rw [List.idxOf_cons_ne _ (hne ha), List.idxOf_cons_ne _ (hne hb)]
      exact Nat.succ_lt_succ hab
    cases hx : p x with
    | false =>
      rw [List.filter_cons_of_neg (by simp [hx])]
      refine hlater p fun a ha hxa => ?_
      rw [← hxa, hx] at ha
      cases ha
    | true =>
      have hne (a : α) (ha : !a == x && p a) : x ≠ a := by
        rintro rfl
        simp at ha
      rw [List.filter_cons_of_pos hx, List.eraseDups_cons, List.filter_filter]
      refine List.pairwise_cons.mpr ⟨?_, hlater _ hne⟩
      intro a ha
      rw [List.idxOf_cons_self, List.idxOf_cons_ne _
        (hne a (List.mem_filter.mp (List.mem_eraseDups.mp ha)).2)]
      exact Nat.succ_pos _

theorem eraseDups_of_nodup {xs : List α} (h : xs.Nodup) : xs.eraseDups = xs := by
  induction xs with
  | nil => rfl
  | cons x xs ih =>
    obtain ⟨hx, hxs⟩ := List.nodup_cons.mp h
    have hkept : xs.filter (fun a => !a == x) = xs := by
      apply List.filter_eq_self.mpr
      intro a ha
      rw [Bool.not_eq_true', beq_eq_false_iff_ne]
      exact fun hax => hx (hax ▸ ha)
    rw [List.eraseDups_cons, hkept, ih hxs]

end FirstOccurrences

namespace Redaction

def Toggles (word : String) (on : Bool) : Prop :=
  Text.lowerCase word ∈ if on then enableWords else disableWords

theorem toggle?_eq_some {word : String} {on : Bool} : toggle? word = some on ↔ Toggles word on := by
  have hapart : ∀ w ∈ disableWords, w ∉ enableWords := by decide
  simp only [toggle?, Toggles, List.contains_iff_mem]
  by_cases hoff : Text.lowerCase word ∈ disableWords
  · have hon := hapart _ hoff
    cases on <;> simp [hoff, hon]
  · by_cases hon : Text.lowerCase word ∈ enableWords <;> cases on <;> simp [hoff, hon]

theorem toggle?_eq_none {word : String} : toggle? word = none ↔ ∀ on, ¬Toggles word on := by
  rw [Option.eq_none_iff_forall_ne_some]
  exact forall_congr' fun on => not_congr toggle?_eq_some

section NoToggles

variable {ds : List String} (h : ∀ w ∈ ds, ∀ on, ¬Toggles w on)
include h

theorem filterMap_toggle? : ds.filterMap toggle? = [] :=
  List.filterMap_eq_nil_iff.mpr fun w hw => toggle?_eq_none.mpr (h w hw)

theorem filter_isNone_toggle? : ds.filter (fun w => (toggle? w).isNone) = ds :=
  List.filter_eq_self.mpr fun w hw => by rw [toggle?_eq_none.mpr (h w hw), Option.isNone_none]

end NoToggles

def ReadAs (raw : String) (directives : List String) : Prop :=
  ∃ pieces : List String, raw = ",".intercalate pieces ∧ (∀ p ∈ pieces, ',' ∉ p.toList) ∧
    directives = (pieces.map Text.trim).filter (!·.isEmpty)

theorem readAs_words (raw : String) : ReadAs raw (words raw) := by
  refine ⟨(Text.splitAt ',' raw.toList).map String.ofList, ?_, ?_, ?_⟩
  · apply String.toList_injective
    have hread : String.toList ∘ String.ofList = id := funext fun _ => String.toList_ofList
    rw [String.toList_intercalate, List.map_map, hread, List.map_id]
    exact (Text.intercalate_splitAt ',' raw.toList).symm
  · intro p hp
    obtain ⟨q, hq, rfl⟩ := List.mem_map.mp hp
    rw [String.toList_ofList]
    exact Text.not_mem_of_mem_splitAt hq
  · simp only [words, List.map_map, Function.comp_def, Text.trim, String.toList_ofList]

structure Neat (word : String) : Prop where
  nonempty : word ≠ ""
  trimmed : Text.trim word = word
  whole : ',' ∉ word.toList

theorem ReadAs.neat {raw : String} {directives : List String} (h : ReadAs raw directives) :
    ∀ word ∈ directives, Neat word := by
  obtain ⟨pieces, -, hwhole, rfl⟩ := h
  intro word hword
  obtain ⟨hmem, hne⟩ := List.mem_filter.mp hword
  obtain ⟨p, hp, rfl⟩ := List.mem_map.mp hmem
  refine ⟨?_, ?_, ?_⟩
  · intro hempty
    simp [hempty] at hne
  · rw [Text.trim, Text.trim, String.toList_ofList,
      Text.trimmed_iff.mp (Text.trimmed_trimChars p.toList)]
  · rw [Text.trim, String.toList_ofList]
    intro hcomma
    have hprefix := (Text.prefix_trimEnd (Text.trimStart p.toList)).mem hcomma
    exact hwhole p hp ((Text.suffix_trimStart p.toList).mem hprefix)

theorem words_intercalate {ws : List String} (hne : ws ≠ []) (h : ∀ w ∈ ws, Neat w) :
    words (",".intercalate ws) = ws := by
  have hsplit : Text.splitAt ',' (",".intercalate ws).toList = ws.map String.toList := by
    rw [String.toList_intercalate]
    apply Text.splitAt_intercalate (by simpa using hne)
    intro p hp
    obtain ⟨w, hw, rfl⟩ := List.mem_map.mp hp
    exact (h w hw).whole
  have htrim : (ws.map String.toList).map (fun w => String.ofList (Text.trimChars w)) = ws := by
    rw [List.map_map]
    exact List.map_congr_left (fun w hw => (h w hw).trimmed) |>.trans (List.map_id ws)
  rw [words, hsplit, htrim, List.filter_eq_self]
  intro w hw
  simpa using (h w hw).nonempty

namespace Directives

def text (d : Directives) : String :=
  ",".intercalate ((if d.enabled then "on" else "off") :: d.tokens)

variable {ds : List String}

theorem mem_tokens_ofWords {t : String} :
    t ∈ (ofWords ds).tokens ↔ t ∈ ds ∧ ∀ on, ¬Toggles t on := by
  simp only [ofWords, List.mem_eraseDups, List.mem_filter, Option.isNone_iff_eq_none,
    toggle?_eq_none]

theorem enabled_of_last (before : List String) {after : List String} {word : String} {on : Bool}
    (hword : Toggles word on) (hafter : ∀ w ∈ after, ∀ on, ¬Toggles w on) :
    (ofWords (before ++ word :: after)).enabled = on := by
  rw [ofWords, List.filterMap_append, List.filterMap_cons_some (toggle?_eq_some.mpr hword),
    filterMap_toggle? hafter, List.getLast?_concat, Option.getD_some]

theorem enabled_of_no_toggle (h : ∀ w ∈ ds, ∀ on, ¬Toggles w on) :
    (ofWords ds).enabled = true ↔ (ofWords ds).tokens ≠ [] := by
  simp only [ofWords, filterMap_toggle? h, filter_isNone_toggle? h, List.getLast?_nil,
    Option.getD_none, Bool.not_eq_true', List.isEmpty_eq_false_iff]
  cases ds with
  | nil => exact Iff.rfl
  | cons d ds => simp [List.eraseDups_cons]

theorem parse_text {d : Directives} (hneat : ∀ t ∈ d.tokens, Neat t)
    (htoken : ∀ t ∈ d.tokens, ∀ on, ¬Toggles t on) (hdistinct : d.tokens.Nodup) :
    parse (some d.text) = d := by
  have hswitch :
      ∀ on : Bool, Neat (if on then "on" else "off") ∧ Toggles (if on then "on" else "off") on := by
    intro on
    cases on <;> exact ⟨⟨by decide, by decide, by decide⟩, toggle?_eq_some.mp (by decide)⟩
  obtain ⟨hneatSwitch, hswitch⟩ := hswitch d.enabled
  have hwords : words d.text = (if d.enabled then "on" else "off") :: d.tokens :=
    words_intercalate (List.cons_ne_nil _ _) (List.forall_mem_cons.mpr ⟨hneatSwitch, hneat⟩)
  have htokens : (ofWords ((if d.enabled then "on" else "off") :: d.tokens)).tokens = d.tokens := by
    rw [ofWords, List.filter_cons_of_neg (by rw [toggle?_eq_some.mpr hswitch]; simp),
      filter_isNone_toggle? htoken, eraseDups_of_nodup hdistinct]
  have henabled := enabled_of_last [] hswitch htoken
  rw [parse, Option.elim_some, hwords]
  exact congrArg₂ Directives.mk henabled htokens

/-- The tokens are the directives that are no toggle words, each once, in the order of their first
occurrences; the last toggle word decides, or else whether there are tokens; written out, all this
reads back. -/
theorem parse_normal (raw : Option String) :
    ∃ ds, ReadAs (raw.getD "") ds ∧
      (∀ t, t ∈ (parse raw).tokens ↔ t ∈ ds ∧ ∀ on, ¬Toggles t on) ∧
      (∀ t ∈ (parse raw).tokens, t ≠ "" ∧ Text.trim t = t ∧ ',' ∉ t.toList) ∧
      (parse raw).tokens.Nodup ∧ (parse raw).tokens.Pairwise (fun t u => ds.idxOf t < ds.idxOf u) ∧
      (∀ before word after on, ds = before ++ word :: after → Toggles word on →
        (∀ w ∈ after, ∀ on, ¬Toggles w on) → (parse raw).enabled = on) ∧
      ((∀ w ∈ ds, ∀ on, ¬Toggles w on) → ((parse raw).enabled = true ↔ (parse raw).tokens ≠ [])) ∧
      parse (some (parse raw).text) = parse raw := by
  have hread : ∃ ds, ReadAs (raw.getD "") ds ∧ parse raw = ofWords ds := by
    cases raw with
    | none => exact ⟨[], ⟨[], rfl, by simp, rfl⟩, rfl⟩
    | some raw => exact ⟨words raw, readAs_words raw, rfl⟩
  obtain ⟨ds, hread, hparse⟩ := hread
  rw [hparse]
  have hneat : ∀ t ∈ (ofWords ds).tokens, Neat t :=
    fun t ht => hread.neat t (mem_tokens_ofWords.mp ht).1
  have horder : (ofWords ds).tokens.Pairwise fun t u => ds.idxOf t < ds.idxOf u :=
    pairwise_idxOf_eraseDups _ ds
  have hnodup : (ofWords ds).tokens.Nodup :=
    horder.imp fun hlt heq => Nat.ne_of_lt hlt (congrArg ds.idxOf heq)
  refine ⟨ds, hread, fun t => mem_tokens_ofWords, ?_, hnodup, horder, ?_, enabled_of_no_toggle, ?_⟩
  · exact fun t ht => ⟨(hneat t ht).nonempty, (hneat t ht).trimmed, (hneat t ht).whole⟩
  · rintro before word after on rfl hword hafter
    exact enabled_of_last before hword hafter
  · exact parse_text hneat (fun t ht => (mem_tokens_ofWords.mp ht).2) hnodup

example : parse (some "ON, sk-, off ,sk-,Key") = ⟨false, ["sk-", "Key"]⟩ := by decide +kernel

end Directives

end Redaction

end RuleForest
