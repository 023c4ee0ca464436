import RuleForest.Proofs.Rearrangement

namespace RuleForest

namespace FileTree

variable {P Q : String → Prop} {t t' : FileTree} {p : Path} {entry : Entry}

def Texts (P : String → Prop) (t : FileTree) : Prop := ∀ e ∈ t.entries, ∀ s, e.2 = .file s → P s

theorem texts_iff : Texts P t ↔ ∀ s ∈ t.fileTexts, P s := by
  simp only [Texts, fileTexts, List.mem_filterMap, Entry.text?_eq_some]
  constructor
  · rintro h s ⟨e, he, hs⟩
    exact h e he s hs
  · intro h e he s hs
    exact h s ⟨e, he, hs⟩

theorem texts_empty (P : String → Prop) : Texts P {} := by
  simp [Texts]

namespace Texts

theorem mono (h : Texts P t) (hPQ : ∀ s, P s → Q s) : Texts Q t :=
  fun e he s hs => hPQ s (h e he s hs)

theorem lookup (h : Texts P t) {s : String} (hp : t.lookup p = some (.file s)) : P s := by
  rw [lookup_eq] at hp
  split at hp
  · cases hp
  · obtain ⟨e, he, hs⟩ := Option.map_eq_some_iff.mp hp
    exact h e (List.mem_of_find?_eq_some he) s hs

theorem put (h : Texts P t) (hentry : ∀ s, entry = .file s → P s) : Texts P (t.put p entry) := by
  obtain ⟨es⟩ := t
  unfold FileTree.put
  induction es with
  | nil =>
    intro e he
    rw [List.mem_singleton.mp he]
    exact hentry
  | cons e es ih =>
    obtain ⟨hfirst, hrest⟩ := List.forall_mem_cons.mp h
    simp only [putEntry]
    split
    · exact List.forall_mem_cons.mpr ⟨hentry, hrest⟩
    · exact List.forall_mem_cons.mpr ⟨hfirst, ih hrest⟩

theorem sublist (h : Texts P t) (ht : t'.fileTexts.Sublist t.fileTexts) : Texts P t' := by
  rw [texts_iff] at h ⊢
  exact fun s hs => h s (ht.subset hs)

variable [FileSystem]

theorem write (h : Texts P t) {s : String} (hs : P s) (ht : t.write p s = .ok t') : Texts P t' := by
  obtain ⟨-, -, rfl⟩ := write_eq_ok ht
  exact h.put fun s' he => Entry.file.inj he ▸ hs

theorem append (h : Texts P t) {line : String} (hkept : ∀ s, P s → Q s) (hline : Q line)
    (hgrown : ∀ s, P s → Q (s ++ line)) (ht : t.append p line = .ok t') : Texts Q t' := by
  obtain ⟨old, hw, hold⟩ := append_eq_ok ht
  apply (h.mono hkept).write _ hw
  rcases hold with rfl | hold
  · rwa [String.empty_append]
  · exact hgrown old (h.lookup hold)

end Texts

end FileTree

namespace Mirror

open FileTree

variable [FileSystem] {P Q : String → Prop} {t t₁ : FileTree}

theorem write_texts (m : Mirror) {line : String} (h : Texts P t) (hkept : ∀ s, P s → Q s)
    (hline : Q line) (hgrown : ∀ s, P s → Q (s ++ line)) : Texts Q (m.write line t).2.1 := by
  rcases m.write_cases line t with ⟨t₁, failures, hwrite, -, ht₁⟩ |
    ⟨t₁, t₂, failures, hwrite, -, ht₁, happend⟩ | ⟨-, t₁, hwrite, rfl | ht₁⟩ <;> rw [hwrite]
  · exact (h.sublist ht₁.fileTexts_sublist).mono hkept
  · exact (h.sublist ht₁.fileTexts_sublist).append hkept hline hgrown happend
  · exact h.mono hkept
  · exact (h.sublist ht₁.fileTexts_sublist).mono hkept

end Mirror

end RuleForest
