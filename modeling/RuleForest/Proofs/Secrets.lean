import Mathlib.Data.List.Infix
import RuleForest.Log.Logger
import RuleForest.Proofs.PlainData

namespace RuleForest

namespace Text

variable {α : Type}

section Between

variable {c : α} {u a b : List α}

theorem prefix_of_prefix_append_cons (hc : c ∉ u) (h : u <+: a ++ c :: b) : u <+: a := by
  induction a generalizing u with
  | nil =>
    rcases List.prefix_cons_iff.mp h with rfl | ⟨u, rfl, -⟩
    · exact List.nil_prefix
    · exact absurd List.mem_cons_self hc
  | cons d a ih =>
    rcases List.prefix_cons_iff.mp h with rfl | ⟨u, rfl, hu⟩
    · exact List.nil_prefix
    · exact List.cons_prefix_cons.mpr ⟨rfl, ih (fun hm => hc (List.mem_cons_of_mem d hm)) hu⟩

theorem infix_of_infix_append_cons (hc : c ∉ u) (h : u <:+: a ++ c :: b) : u <:+: a ∨ u <:+: b := by
  induction a with
  | nil =>
    rcases List.infix_cons_iff.mp h with h | h
    · exact .inl (prefix_of_prefix_append_cons (a := []) hc h).isInfix
    · exact .inr h
  | cons d a ih =>
    rcases List.infix_cons_iff.mp h with h | h
    · exact .inl (prefix_of_prefix_append_cons (a := d :: a) hc h).isInfix
    · exact (ih h).imp_left fun h => List.infix_cons_iff.mpr (.inr h)

end Between

variable [DecidableEq α] {w filler s u : List α} {c : α}

theorem replaceAll_of_not_infix (h : ¬w <:+: s) : replaceAll w filler s = s := by
  induction s with
  | nil => rw [replaceAll]
  | cons c s ih =>
    have hhead : ¬w.isPrefixOf (c :: s) := fun hp => h (List.isPrefixOf_iff_prefix.mp hp).isInfix
    rw [replaceAll, if_neg hhead, ih fun hs => h (List.infix_cons_iff.mpr (.inr hs))]

theorem prefix_of_prefix_replaceAll (hc : c ∉ u) (h : u <+: replaceAll w (c :: filler) s) :
    u <+: s := by
  induction s generalizing u with
  | nil => rwa [replaceAll] at h
  | cons d s ih =>
    rw [replaceAll] at h
    split at h
    · rw [List.prefix_nil.mp (prefix_of_prefix_append_cons (a := []) hc h)]
      exact List.nil_prefix
    · rcases List.prefix_cons_iff.mp h with rfl | ⟨u, rfl, hu⟩
      · exact List.nil_prefix
      · exact List.cons_prefix_cons.mpr ⟨rfl, ih (fun hm => hc (List.mem_cons_of_mem d hm)) hu⟩

theorem prefix_cons_of_prefix_cons_replaceAll (hc : c ∉ u) {d : α}
    (h : u <+: d :: replaceAll w (c :: filler) s) :
    u <+: d :: s := by
  rcases List.prefix_cons_iff.mp h with rfl | ⟨u, rfl, hu⟩
  · exact List.nil_prefix
  · exact List.cons_prefix_cons.mpr ⟨rfl,
      prefix_of_prefix_replaceAll (fun hm => hc (List.mem_cons_of_mem d hm)) hu⟩

end Text

namespace Secret

def brackets : UInt16 × UInt16 := (0x5B, 0x5D)

structure Apart (u : List UInt16) : Prop where
  left : brackets.1 ∉ u
  right : brackets.2 ∉ u
  word : ¬u <:+: Text.units "REDACTED"

instance (u : List UInt16) : Decidable (Apart u) :=
  decidable_of_iff (brackets.1 ∉ u ∧ brackets.2 ∉ u ∧ ¬u <:+: Text.units "REDACTED")
    ⟨fun h => ⟨h.1, h.2.1, h.2.2⟩, fun h => ⟨h.left, h.right, h.word⟩⟩

theorem mark_eq : mark = brackets.1 :: (Text.units "REDACTED" ++ [brackets.2]) := by decide

namespace Apart

variable {u w s : List UInt16}

theorem ne_nil (h : Apart u) : u ≠ [] := by
  rintro rfl
  exact h.word List.nil_infix

theorem infix_of_infix_mark_append (h : Apart u) (hu : u <:+: mark ++ s) : u <:+: s := by
  have hu : u <:+: [] ++ brackets.1 :: (Text.units "REDACTED" ++ brackets.2 :: s) := by
    simpa only [mark_eq, List.cons_append, List.append_assoc, List.nil_append] using hu
  rcases Text.infix_of_infix_append_cons h.left hu with hu | hu
  · exact absurd (List.infix_nil.mp hu) h.ne_nil
  · exact (Text.infix_of_infix_append_cons h.right hu).resolve_left h.word

theorem not_infix_mark (h : Apart u) : ¬u <:+: mark := by
  intro hu
  rw [← List.append_nil mark] at hu
  exact h.ne_nil (List.infix_nil.mp (h.infix_of_infix_mark_append hu))

theorem prefix_replaceAll (h : Apart u) {d : UInt16} (hu : u <+: d :: Text.replaceAll w mark s) :
    u <+: d :: s := by
  rw [mark_eq] at hu
  exact Text.prefix_cons_of_prefix_cons_replaceAll h.left hu

theorem infix_of_infix_replaceAll (h : Apart u) (hu : u <:+: Text.replaceAll w mark s) :
    u <:+: s := by
  fun_induction Text.replaceAll w mark s with
  | case1 => exact hu
  | case2 c s hw ih =>
    have hrest : s.drop (w.length - 1) <:+: c :: s :=
      ((List.drop_suffix _ s).trans (List.suffix_cons c s)).isInfix
    exact (ih (h.infix_of_infix_mark_append hu)).trans hrest
  | case3 c s hw ih =>
    -- A word that begins at a unit that is kept ends before the next mark.
    rcases List.infix_cons_iff.mp hu with hu | hu
    · exact (h.prefix_replaceAll hu).isInfix
    · exact List.infix_cons_iff.mpr (.inr (ih hu))

theorem not_infix_replaceAll (h : Apart w) (s : List UInt16) :
    ¬w <:+: Text.replaceAll w mark s := by
  fun_induction Text.replaceAll w mark s with
  | case1 => exact fun hw => h.ne_nil (List.infix_nil.mp hw)
  | case2 c s hw ih => exact fun hu => ih (h.infix_of_infix_mark_append hu)
  | case3 c s hw ih =>
    intro hu
    rcases List.infix_cons_iff.mp hu with hu | hu
    · exact hw (List.isPrefixOf_iff_prefix.mpr (h.prefix_replaceAll hu))
    · exact ih hu

end Apart

variable {ws : List (List UInt16)} {s : List UInt16}

theorem scrub_literals (ws : List (List UInt16)) (s : List UInt16) :
    scrub (ws.map .literal) s = ws.foldl (fun s w => (literal w).scrubOne s) s := by
  rw [scrub, List.foldl_map]

theorem scrubOne_literal {w : List UInt16} (h : Apart w) (s : List UInt16) :
    (literal w).scrubOne s = Text.replaceAll w mark s := by
  rw [scrubOne, if_neg (by simpa using h.ne_nil)]

theorem not_infix_foldl {u : List UInt16} (hu : Apart u) (hws : ∀ w ∈ ws, Apart w)
    (hs : ¬u <:+: s) :
    ¬u <:+: ws.foldl (fun s w => (literal w).scrubOne s) s := by
  induction ws generalizing s with
  | nil => exact hs
  | cons w ws ih =>
    rw [List.foldl_cons, scrubOne_literal (hws w List.mem_cons_self)]
    exact ih (fun w hw => hws w (List.mem_cons_of_mem _ hw))
      fun hi => hs (hu.infix_of_infix_replaceAll hi)

theorem not_infix_scrub (hws : ∀ w ∈ ws, Apart w) (s : List UInt16) :
    ∀ w ∈ ws, ¬w <:+: scrub (ws.map .literal) s := by
  rw [scrub_literals]
  induction ws generalizing s with
  | nil => simp
  | cons w ws ih =>
    have hrest : ∀ w ∈ ws, Apart w := fun w hw => hws w (List.mem_cons_of_mem _ hw)
    have hw := hws w List.mem_cons_self
    rw [List.forall_mem_cons, List.foldl_cons, scrubOne_literal hw]
    -- The first secret is gone at once and does not come back by what is done to the others.
    exact ⟨not_infix_foldl hw hrest (hw.not_infix_replaceAll s), ih hrest _⟩

theorem scrub_of_fixed {secrets : List Secret} (h : ∀ secret ∈ secrets, secret.scrubOne s = s) :
    scrub secrets s = s := by
  rw [scrub]
  induction secrets with
  | nil => rfl
  | cons secret secrets ih =>
    obtain ⟨hsecret, hsecrets⟩ := List.forall_mem_cons.mp h
    rw [List.foldl_cons, hsecret, ih hsecrets]

theorem scrub_of_not_infix (hws : ∀ w ∈ ws, Apart w) (hs : ∀ w ∈ ws, ¬w <:+: s) :
    scrub (ws.map .literal) s = s := by
  apply scrub_of_fixed
  rw [List.forall_mem_map]
  intro w hw
  rw [scrubOne_literal (hws w hw), Text.replaceAll_of_not_infix (hs w hw)]

theorem distinct_literals (ws : List (List UInt16)) :
    distinct (ws.map .literal) = ws.eraseDups.map .literal := by
  match ws with
  | [] => rfl
  | w :: ws =>
    have ih := distinct_literals (ws.filter fun u => !u == w)
    have hfilter : (ws.map literal).filter (fun b => decide (sameLiteral b (literal w) = false)) =
        (ws.filter fun u => !u == w).map .literal := by
      rw [List.filter_map]
      congr 1
      apply List.filter_congr
      intro u _
      exact Bool.decide_eq_false
    rw [distinct, List.map_cons, List.eraseDupsBy_cons, hfilter, ← distinct, ih,
      List.eraseDups_cons, List.map_cons]
termination_by ws.length
decreasing_by exact Nat.lt_succ_of_le (List.length_filter_le _ _)

end Secret

namespace Redaction

variable {secrets : List Secret} {P : List UInt16 → Prop}

open Payload

mutual

theorem redact_allTexts (hscrub : ∀ s, P (Secret.scrub secrets s)) (hmark : P Secret.mark) :
    ∀ {p : Payload}, p.AllTexts (fun _ => True) → (redact secrets p).AllTexts P
  | .undefined, _ => trivial
  | .null, _ => trivial
  | .bool _, _ => trivial
  | .number _, _ => trivial
  | .text us, _ => hscrub us
  | .list _, h => redactItems_itemTexts hscrub hmark h
  | .record _, h => redactFields_fieldTexts hscrub hmark h

theorem redactItems_itemTexts (hscrub : ∀ s, P (Secret.scrub secrets s)) (hmark : P Secret.mark) :
    ∀ {ps : List Payload}, ItemTexts (fun _ => True) ps → ItemTexts P (redactItems secrets ps)
  | [], _ => trivial
  | _ :: _, h => ⟨redact_allTexts hscrub hmark h.1, redactItems_itemTexts hscrub hmark h.2⟩

theorem redactFields_fieldTexts (hscrub : ∀ s, P (Secret.scrub secrets s)) (hmark : P Secret.mark) :
    ∀ {fs : List (String × Payload)}, FieldTexts (fun _ => True) fs →
      FieldTexts P (redactFields secrets fs)
  | [], _ => trivial
  | (k, p) :: fs, h => by
    rw [redactFields]
    split
    · exact redactFields_fieldTexts hscrub hmark h.2
    · refine ⟨?_, redactFields_fieldTexts hscrub hmark h.2⟩
      split
      · exact hmark
      · exact redact_allTexts hscrub hmark h.1

end

mutual

theorem redact_redact
    (hscrub : ∀ s, Secret.scrub secrets (Secret.scrub secrets s) = Secret.scrub secrets s) :
    ∀ p : Payload, redact secrets (redact secrets p) = redact secrets p
  | .undefined => rfl
  | .null => rfl
  | .bool _ => rfl
  | .number _ => rfl
  | .text us => congrArg text (hscrub us)
  | .list items => congrArg list (redactItems_redactItems hscrub items)
  | .record fields => congrArg record (redactFields_redactFields hscrub fields)
  | .exception _ _ => rfl
  | .fault _ => rfl

theorem redactItems_redactItems
    (hscrub : ∀ s, Secret.scrub secrets (Secret.scrub secrets s) = Secret.scrub secrets s) :
    ∀ ps : List Payload, redactItems secrets (redactItems secrets ps) = redactItems secrets ps
  | [] => rfl
  | p :: ps =>
    congrArg₂ List.cons (redact_redact hscrub p) (redactItems_redactItems hscrub ps)

theorem redactFields_redactFields
    (hscrub : ∀ s, Secret.scrub secrets (Secret.scrub secrets s) = Secret.scrub secrets s) :
    ∀ fs : List (String × Payload),
      redactFields secrets (redactFields secrets fs) = redactFields secrets fs
  | [] => rfl
  | (k, p) :: fs => by
    by_cases hk : k = parentKey
    · simp only [redactFields, hk, ↓reduceIte, redactFields_redactFields hscrub fs]
    · simp only [redactFields, hk, ↓reduceIte, redactFields_redactFields hscrub fs]
      cases isSensitive k with
      | true => rfl
      | false => simp only [Bool.false_eq_true, ↓reduceIte, redact_redact hscrub p]

end

end Redaction

namespace Logger

variable {l : Logger} {timestamp : String} {call : LogCall} {e : LogEntry}

theorem payload_eq_redact (hredacts : l.redacts = true) (he : l.entry? timestamp call = some e) :
    e.payload = Redaction.redact l.secrets call.payload.plain := by
  unfold entry? at he
  split at he
  · cases he
    simp only [shownPayload, hredacts, ↓reduceIte]
  · cases he

theorem heard_payload_eq {P : List UInt16 → Prop} (he : l.entry? timestamp call = some e)
    (htexts : e.payload.AllTexts P) {heard : LogEntry}
    (hheard : l.heard? timestamp call = some heard) :
    heard.payload = e.payload := by
  rw [heard?, he] at hheard
  split at hheard
  · cases hheard
    exact htexts.copied_eq
  · cases hheard

/-- A logger that redacts leaves none of its secrets in the texts of a payload, a listener gets that
payload too, and it is shown as it is when it is logged again. -/
theorem secrets_not_shown (o : Options) (ws : List (List UInt16))
    (hsecrets : o.secrets = some (ws.map .literal)) (hws : ∀ w ∈ ws, Secret.Apart w)
    (hredacts : (ofOptions o).redacts = true) (timestamp : String) (call : LogCall) (e : LogEntry)
    (he : Logger.entry? (ofOptions o) timestamp call = some e) :
    (e.payload.AllTexts fun us => ∀ w ∈ ws, ¬w <:+: us) ∧
      (∀ heard, (ofOptions o).heard? timestamp call = some heard → heard.payload = e.payload) ∧
      (ofOptions o).shownPayload e.payload = e.payload := by
  have hkept : (ofOptions o).secrets = ws.eraseDups.map .literal := by
    rw [← Secret.distinct_literals]
    simp only [ofOptions, hsecrets, Option.getD_some]
  have hapart : ∀ w ∈ ws.eraseDups, Secret.Apart w := fun w hw => hws w (List.mem_eraseDups.mp hw)
  have hpayload := payload_eq_redact hredacts he
  rw [hkept] at hpayload
  have htexts : e.payload.AllTexts fun us => ∀ w ∈ ws, ¬w <:+: us := by
    rw [hpayload]
    apply Redaction.redact_allTexts
    · exact fun s w hw => Secret.not_infix_scrub hapart s w (List.mem_eraseDups.mpr hw)
    · exact fun w hw => (hws w hw).not_infix_mark
    · exact Payload.plain_allTexts call.payload
  refine ⟨htexts, fun heard hheard => heard_payload_eq he htexts hheard, ?_⟩
  have htwice (us : List UInt16) :=
    Secret.scrub_of_not_infix hapart (Secret.not_infix_scrub hapart us)
  simp only [shownPayload, hredacts, ↓reduceIte, hkept, htexts.plain_eq]
  rw [hpayload, Redaction.redact_redact htwice]

theorem secrets_not_shown_overlapping :
    let ws := ["k-l", "sk-", "sk-live", "aa"].map Text.units
    let o : Options := { secrets := some (ws.map .literal), listener := some fun _ => none }
    let call : LogCall :=
      { level := .info
        message := "m"
        payload := .record [("notes", .list [.string "sk-live",
          .record [("more", .string "sssk-k-aaa")]]), ("token", .null)] }
    o.secrets = some (ws.map .literal) ∧ (∀ w ∈ ws, Secret.Apart w) ∧ (ofOptions o).redacts = true ∧
      ∃ e, Logger.entry? (ofOptions o) "2024-01-01T00:00:00.000Z" call = some e ∧
        (e.payload.AllTexts fun us => ∀ w ∈ ws, ¬w <:+: us) ∧
        (∀ heard, (ofOptions o).heard? "2024-01-01T00:00:00.000Z" call = some heard →
          heard.payload = e.payload) ∧
        (ofOptions o).shownPayload e.payload = e.payload := by
  intro ws o call
  have hws : ∀ w ∈ ws, Secret.Apart w := by decide
  exact ⟨rfl, hws, rfl, _, rfl, secrets_not_shown o ws rfl hws rfl _ _ _ rfl⟩

end Logger

end RuleForest
