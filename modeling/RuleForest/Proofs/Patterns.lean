import RuleForest.Proofs.Matching
import RuleForest.Proofs.Secrets

namespace RuleForest

namespace Secret

open Text

variable {p : Pattern} {ps : List Pattern} {s w : List UInt16}

theorem scrub_patterns (ps : List Pattern) (s : List UInt16) :
    scrub (ps.map .pattern) s = ps.foldl (fun s p => p.replaceUnits mark s) s := by
  rw [scrub, List.foldl_map]
  rfl

theorem distinct_patterns (ps : List Pattern) : distinct (ps.map .pattern) = ps.map .pattern := by
  induction ps with
  | nil => rfl
  | cons p ps ih =>
    have hkept : (ps.map pattern).filter (fun b => decide (sameLiteral b (pattern p) = false)) =
        ps.map .pattern := by
      apply List.filter_eq_self.mpr
      intro b hb
      obtain ⟨q, -, rfl⟩ := List.mem_map.mp hb
      rfl
    rw [distinct] at ih
    rw [distinct, List.map_cons, List.eraseDupsBy_cons, hkept, ih]

instance (p : Pattern) (u : UInt16) : Decidable (p.Takes u) :=
  inferInstanceAs (Decidable (∃ _ ∈ _, _))

def Clear (ps : List Pattern) : Prop := ∀ p ∈ ps, ∀ u ∈ mark, ¬p.Takes u

instance (ps : List Pattern) : Decidable (Clear ps) :=
  have (p : Pattern) : Decidable (∀ u ∈ mark, ¬p.Takes u) := List.decidableBAll _ _
  List.decidableBAll _ _

theorem mark_ne_nil : mark ≠ [] := by decide

theorem Clear.infix_of_infix_foldl (h : Clear ps) (hp : p ∈ ps) (hmatch : p.Matches w)
    (qs : List Pattern) (hw : w <:+: qs.foldl (fun s q => q.replaceUnits mark s) s) : w <:+: s := by
  have hfiller : ∀ u ∈ w, u ∉ mark := fun u hu hmark => h p hp u hmark (hmatch.takes u hu)
  induction qs generalizing s with
  | nil => exact hw
  | cons q qs ih =>
    exact Pattern.infix_of_infix_replaceUnits hmatch.ne_nil mark_ne_nil hfiller (ih hw)

theorem not_foundIn_scrub (h : Clear ps) (direct : ∀ p ∈ ps, p.Direct) (s : List UInt16) :
    ∀ p ∈ ps, p.everywhere = true → ¬p.FoundIn (scrub (ps.map .pattern) s) := by
  intro p hp heverywhere
  have hreplaced := Pattern.not_foundIn_replaceUnits (direct p hp) heverywhere mark_ne_nil (h p hp)
  obtain ⟨before, after, rfl⟩ := List.append_of_mem hp
  rintro ⟨w, hw, hmatch⟩
  rw [scrub_patterns, List.foldl_append, List.foldl_cons] at hw
  -- What comes after the pattern's own turn brings no match back.
  have hw := h.infix_of_infix_foldl hp hmatch after hw
  exact hreplaced _ ⟨w, hw, hmatch⟩

theorem not_foundIn_mark (h : Clear ps) : ∀ p ∈ ps, ¬p.FoundIn mark := by
  rintro p hp ⟨w, hw, hmatch⟩
  obtain ⟨u, w, rfl⟩ := List.exists_cons_of_ne_nil hmatch.ne_nil
  exact h p hp u (hw.subset List.mem_cons_self) (hmatch.takes u List.mem_cons_self)

end Secret

namespace Logger

open Text

/-- A logger that redacts leaves no match of a pattern that asks for every one in the texts of a
payload, however many there were, wherever they were and whatever other patterns there are. -/
theorem patterns_not_shown (o : Options) (ps : List Pattern)
    (hsecrets : o.secrets = some (ps.map .pattern)) (direct : ∀ p ∈ ps, p.Direct)
    (clear : Secret.Clear ps) (hredacts : (ofOptions o).redacts = true) (timestamp : String)
    (call : LogCall) (e : LogEntry) (he : Logger.entry? (ofOptions o) timestamp call = some e) :
    (e.payload.AllTexts fun us => ∀ p ∈ ps, p.everywhere = true → ¬p.FoundIn us) ∧
      ∀ heard, (ofOptions o).heard? timestamp call = some heard → heard.payload = e.payload := by
  have hkept : (ofOptions o).secrets = ps.map .pattern := by
    simp only [ofOptions, hsecrets, Option.getD_some, Secret.distinct_patterns]
  have htexts :
      e.payload.AllTexts fun us => ∀ p ∈ ps, p.everywhere = true → ¬p.FoundIn us := by
    rw [payload_eq_redact hredacts he, hkept]
    apply Redaction.redact_allTexts
    · exact Secret.not_foundIn_scrub clear direct
    · exact fun p hp _ => Secret.not_foundIn_mark clear p hp
    · exact Payload.plain_allTexts call.payload
  exact ⟨htexts, fun heard hheard => heard_payload_eq he htexts hheard⟩

theorem patterns_not_shown_mixed :
    let ps : List Pattern := [⟨⟨[(48, 57)], true⟩, [⟨[(120, 120)], false⟩], true, false⟩,
      ⟨⟨[(224, 254)], true⟩, [], true, true⟩,
      ⟨⟨[(0xD83D, 0xD83D)], false⟩, [], true, false⟩]
    let o : Options := { secrets := some (ps.map .pattern), listener := some fun _ => none }
    let call : LogCall :=
      { level := .info
        message := "m"
        payload := .list [.string "1x 23xÉé 😀", .record [("more", .string "4x😀😀")]] }
    [("\\d+x", "g"), ("[à-þ]+", "gi")].map (fun p => Pattern.ofSource? p.1 p.2) =
        (ps.take 2).map some ∧
      o.secrets = some (ps.map .pattern) ∧ (∀ p ∈ ps, p.Direct) ∧ Secret.Clear ps ∧
      (ofOptions o).redacts = true ∧
      ∃ e, Logger.entry? (ofOptions o) "2024-01-01T00:00:00.000Z" call = some e ∧
        (e.payload.AllTexts fun us => ∀ p ∈ ps, p.everywhere = true → ¬p.FoundIn us) ∧
        ∀ heard, (ofOptions o).heard? "2024-01-01T00:00:00.000Z" call = some heard →
          heard.payload = e.payload := by
  intro ps o call
  have direct : ∀ p ∈ ps, p.Direct := by
    have hdigits : Piece.Separate false ⟨[(48, 57)], true⟩ ⟨[(120, 120)], false⟩ := by
      intro _ u hu
      simp [Piece.accepts, Piece.contains] at hu ⊢
      omega
    intro p hp
    simp only [ps, List.mem_cons, List.not_mem_nil, or_false] at hp
    rcases hp with rfl | rfl | rfl
    · exact List.isChain_cons_cons.mpr ⟨hdigits, .singleton _⟩
    · exact .singleton _
    · exact .singleton _
  have clear : Secret.Clear ps := by decide +kernel
  exact ⟨by decide +kernel, rfl, direct, clear, rfl, _, rfl,
    patterns_not_shown o ps rfl direct clear rfl _ _ _ rfl⟩

theorem patterns_not_shown_needs_every_match :
    let p : Pattern := ⟨⟨[(48, 57)], false⟩, [], false, false⟩
    let l := ofOptions { secrets := some [.pattern p] }
    let call : LogCall := { level := .info, message := "m", payload := .string "1 2" }
    Pattern.ofSource? "\\d" "" = some p ∧ p.Direct ∧ Secret.Clear [p] ∧ l.redacts = true ∧
      ∃ e, l.entry? "2024-01-01T00:00:00.000Z" call = some e ∧
        e.payload = .string "[REDACTED] 2" ∧ ¬e.payload.AllTexts fun us => ¬p.FoundIn us := by
  intro p l call
  have hscrub : Secret.scrub [.pattern p] (units "1 2") = units "[REDACTED] 2" := by decide +kernel
  have hpayload : l.shownPayload call.payload = .string "[REDACTED] 2" :=
    congrArg Payload.text hscrub
  refine ⟨by decide +kernel, .singleton _, by decide +kernel, rfl, _, rfl, hpayload, ?_⟩
  intro htexts
  change (l.shownPayload call.payload).AllTexts _ at htexts
  rw [hpayload] at htexts
  refine htexts ⟨[50], by decide, ?_⟩
  exact .cons (p := p.first) (w := [50])
    ⟨by decide, List.forall_mem_singleton.mpr (by decide), fun _ => rfl⟩ .nil

end Logger

end RuleForest
