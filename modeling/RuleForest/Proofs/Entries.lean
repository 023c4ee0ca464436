import Mathlib.Data.List.Induction
import Mathlib.Data.List.Nodup
import RuleForest.Context

namespace RuleForest.Context

variable {α : Type}

inductive Edit (α : Type) where
  | set (key : String) (value : α)
  | delete (key : String)

namespace Edit

def key : Edit α → String
  | set key _ => key
  | delete key => key

def apply (c : Context α) : Edit α → Context α
  | set key value => c.set key value
  | delete key => (c.delete key).2

end Edit

def after (c : Context α) (edits : List (Edit α)) : Context α := edits.foldl Edit.apply c

def seeding (pairs : List (String × α)) : List (Edit α) := pairs.map fun p => .set p.1 p.2

theorem ofPairs_after (pairs : List (String × α)) (edits : List (Edit α)) :
    (ofPairs pairs).after edits = empty.after (seeding pairs ++ edits) := by
  rw [ofPairs, after, after, seeding, List.foldl_append, List.foldl_map]
  rfl

theorem after_concat (c : Context α) (edits : List (Edit α)) (edit : Edit α) :
    c.after (edits ++ [edit]) = edit.apply (c.after edits) := by
  rw [after, List.foldl_append]
  rfl

section History

variable {history : List (Edit α)} {key k : String} {value v : α} {n : Nat}

def Written (history : List (Edit α)) (key : String) (value : α) : Prop :=
  ∃ before after, history = before ++ .set key value :: after ∧ ∀ edit ∈ after, edit.key ≠ key

def Since (history : List (Edit α)) (key : String) (n : Nat) : Prop :=
  ∃ before value after, history = before ++ .set key value :: after ∧ before.length = n ∧
    (∀ v, ¬Written before key v) ∧ .delete key ∉ after

theorem written_concat {edit : Edit α} :
    Written (history ++ [edit]) key value ↔
    edit = .set key value ∨ edit.key ≠ key ∧ Written history key value := by
  constructor
  · rintro ⟨before, after, heq, hafter⟩
    rcases List.eq_nil_or_concat' after with rfl | ⟨after, last, rfl⟩
    · exact .inl (List.singleton_inj.mp (List.append_inj' heq rfl).2)
    · rw [← List.cons_append, ← List.append_assoc] at heq
      obtain ⟨rfl, hlast⟩ := List.append_inj' heq rfl
      obtain rfl := List.singleton_inj.mp hlast
      obtain ⟨hafter, hedit⟩ := List.forall_mem_append.mp hafter
      exact .inr ⟨hedit _ (List.mem_singleton_self _), before, after, rfl, hafter⟩
  · rintro (rfl | ⟨hkey, before, after, rfl, hafter⟩)
    · exact ⟨history, [], rfl, by simp⟩
    · refine ⟨before, after ++ [edit], by simp, ?_⟩
      exact List.forall_mem_append.mpr ⟨hafter, List.forall_mem_singleton.mpr hkey⟩

theorem Since.lt (h : Since history key n) : n < history.length := by
  obtain ⟨before, value, after, rfl, rfl, -⟩ := h
  simp

theorem Since.concat (h : Since history key n) {edit : Edit α} (hedit : edit ≠ .delete key) :
    Since (history ++ [edit]) key n := by
  obtain ⟨before, value, after, rfl, hn, habsent, hkept⟩ := h
  refine ⟨before, value, after ++ [edit], by simp, hn, habsent, ?_⟩
  rw [List.mem_append, List.mem_singleton]
  exact not_or.mpr ⟨hkept, Ne.symm hedit⟩

theorem since_set (habsent : ∀ v, ¬Written history key v) (value : α) :
    Since (history ++ [.set key value]) key history.length :=
  ⟨history, value, [], rfl, rfl, habsent, List.not_mem_nil⟩

end History

section Insertion

variable {key : String} {value : α} {es : List (String × α)}

theorem insertEntry_of_not_mem (h : key ∉ es.map Prod.fst) :
    insertEntry key value es = es ++ [(key, value)] := by
  induction es with
  | nil => rfl
  | cons e es ih =>
    rw [List.map_cons, List.mem_cons, not_or] at h
    rw [insertEntry, if_neg (Ne.symm h.1), ih h.2, List.cons_append]

theorem map_fst_insertEntry (h : key ∈ es.map Prod.fst) :
    (insertEntry key value es).map Prod.fst = es.map Prod.fst := by
  induction es with
  | nil => simp at h
  | cons e es ih =>
    rw [insertEntry]
    split
    · next he => rw [List.map_cons, List.map_cons, he]
    · next he =>
      rw [List.map_cons, List.mem_cons] at h
      rw [List.map_cons, List.map_cons, ih (h.resolve_left (Ne.symm he))]

theorem mem_insertEntry (hnodup : (es.map Prod.fst).Nodup) {e : String × α} :
    e ∈ insertEntry key value es ↔ e = (key, value) ∨ e.1 ≠ key ∧ e ∈ es := by
  induction es with
  | nil => simp [insertEntry]
  | cons d es ih =>
    rw [List.map_cons, List.nodup_cons] at hnodup
    rw [insertEntry]
    split
    · next hd =>
      have hrest : e ∈ es → e.1 ≠ key :=
        fun he hkey => hnodup.1 (hd ▸ hkey ▸ List.mem_map_of_mem he)
      have hd' : e = d → e.1 = key := fun h => h ▸ hd
      simp only [List.mem_cons]
      tauto
    · next hd =>
      have hd' : e = d → e.1 ≠ key := fun h => h ▸ hd
      simp only [List.mem_cons, ih hnodup.2]
      tauto

end Insertion

section Keys

variable {c : Context α} {key : String}

theorem keys_set_of_mem (h : key ∈ c.keys) (value : α) : (c.set key value).keys = c.keys :=
  map_fst_insertEntry h

theorem keys_set_of_not_mem (h : key ∉ c.keys) (value : α) :
    (c.set key value).keys = c.keys ++ [key] := by
  rw [keys, set, insertEntry_of_not_mem h, List.map_append]
  rfl

theorem keys_delete (c : Context α) (key : String) :
    (c.delete key).2.keys = c.keys.filter (· != key) := by
  simp only [keys, delete, List.filter_map]
  rfl

end Keys

structure Recounts (c : Context α) (history : List (Edit α)) : Prop where
  distinct : c.keys.Nodup
  written (key : String) (value : α) : (key, value) ∈ c.entries ↔ Written history key value
  since : ∀ key ∈ c.keys, ∃ n, Since history key n
  ordered : c.keys.Pairwise fun a b => ∃ m n, Since history a m ∧ Since history b n ∧ m < n

namespace Recounts

variable {c : Context α} {history : List (Edit α)} {key : String}

theorem mem_keys (h : c.Recounts history) : key ∈ c.keys ↔ ∃ value, Written history key value := by
  simp only [keys, List.mem_map, Prod.exists, exists_and_right, exists_eq_right, h.written]

theorem nil : (empty : Context α).Recounts [] where
  distinct := .nil
  written key value := by
    constructor
    · exact fun h => absurd h List.not_mem_nil
    · rintro ⟨before, after, heq, -⟩
      simp at heq
  since := by simp [keys, empty]
  ordered := .nil

theorem set (h : c.Recounts history) (key : String) (value : α) :
    (c.set key value).Recounts (history ++ [.set key value]) := by
  have hsince {k : String} {n : Nat} (hk : Since history k n) :
      Since (history ++ [.set key value]) k n :=
    hk.concat (by simp)
  have hordered : c.keys.Pairwise fun a b => ∃ m n, Since (history ++ [.set key value]) a m ∧
      Since (history ++ [.set key value]) b n ∧ m < n :=
    h.ordered.imp fun ⟨m, n, hm, hn, hlt⟩ => ⟨m, n, hsince hm, hsince hn, hlt⟩
  have hwritten (k : String) (v : α) :
      (k, v) ∈ (c.set key value).entries ↔ Written (history ++ [.set key value]) k v := by
    rw [Context.set, mem_insertEntry h.distinct, h.written, written_concat, Prod.mk.injEq,
      Edit.set.injEq, Edit.key, eq_comm (a := k), eq_comm (a := v), ne_comm]
  by_cases hkey : key ∈ c.keys
  · have hkeys := keys_set_of_mem hkey value
    constructor
    case distinct => exact hkeys ▸ h.distinct
    case written => exact hwritten
    case since => exact hkeys ▸ fun k hk => (h.since k hk).imp fun n hn => hsince hn
    case ordered => exact hkeys ▸ hordered
  · have hkeys := keys_set_of_not_mem hkey value
    -- No edit before this one has made the key present.
    have hlast : Since (history ++ [.set key value]) key history.length := by
      apply since_set
      intro v hv
      exact hkey (h.mem_keys.mpr ⟨v, hv⟩)
    constructor
    case distinct =>
      rw [hkeys, List.nodup_append]
      refine ⟨h.distinct, List.nodup_singleton key, ?_⟩
      rintro k hk k' hk' rfl
      exact hkey (List.mem_singleton.mp hk' ▸ hk)
    case written => exact hwritten
    case since =>
      rw [hkeys]
      intro k hk
      rcases List.mem_append.mp hk with hk | hk
      · exact (h.since k hk).imp fun n hn => hsince hn
      · rw [List.mem_singleton.mp hk]
        exact ⟨_, hlast⟩
    case ordered =>
      rw [hkeys, List.pairwise_append]
      refine ⟨hordered, List.pairwise_singleton _ _, ?_⟩
      intro k hk k' hk'
      obtain ⟨m, hm⟩ := h.since k hk
      rw [List.mem_singleton.mp hk']
      exact ⟨m, history.length, hsince hm, hlast, hm.lt⟩

theorem delete (h : c.Recounts history) (key : String) :
    (c.delete key).2.Recounts (history ++ [.delete key]) := by
  have hkeys := keys_delete c key
  have hsince {k : String} {n : Nat} (hk : k ≠ key) (hn : Since history k n) :
      Since (history ++ [.delete key]) k n :=
    hn.concat fun hdelete => hk (Edit.delete.inj hdelete).symm
  have hmem {k : String} (hk : k ∈ c.keys.filter (· != key)) : k ∈ c.keys ∧ k ≠ key := by
    simpa using hk
  constructor
  case distinct => exact hkeys ▸ h.distinct.filter _
  case written =>
    intro k v
    rw [written_concat, Context.delete, List.mem_filter, h.written, Edit.key, bne_iff_ne]
    simp [and_comm, eq_comm]
  case since =>
    rw [hkeys]
    intro k hk
    obtain ⟨hk, hne⟩ := hmem hk
    exact (h.since k hk).imp fun n hn => hsince hne hn
  case ordered =>
    rw [hkeys]
    refine (h.ordered.filter _).imp_of_mem fun {a b} ha hb ⟨m, n, hm, hn, hlt⟩ => ?_
    exact ⟨m, n, hsince (hmem ha).2 hm, hsince (hmem hb).2 hn, hlt⟩

theorem after (history : List (Edit α)) : (empty.after history).Recounts history := by
  induction history using List.reverseRecOn with
  | nil => exact nil
  | append_singleton history edit ih =>
    rw [after_concat]
    cases edit with
    | set key value => exact ih.set key value
    | delete key => exact ih.delete key

end Recounts

section Readers

variable {c : Context α} {key : String} {value : α}

theorem get?_eq_some (hnodup : c.keys.Nodup) :
    c.get? key = some value ↔ (key, value) ∈ c.entries := by
  obtain ⟨es⟩ := c
  simp only [get?, keys, Option.map_eq_some_iff] at hnodup ⊢
  constructor
  · rintro ⟨e, he, rfl⟩
    have hkey := List.find?_some he
    rw [beq_iff_eq] at hkey
    exact hkey ▸ List.mem_of_find?_eq_some he
  · intro hmem
    cases hfind : es.find? (fun e => e.1 == key) with
    | none => exact absurd (List.find?_eq_none.mp hfind _ hmem) (by simp)
    | some e =>
      have hkey := List.find?_some hfind
      rw [beq_iff_eq] at hkey
      have he := List.inj_on_of_nodup_map hnodup (List.mem_of_find?_eq_some hfind) hmem hkey
      exact ⟨e, rfl, he ▸ rfl⟩

theorem contains_eq_true : c.contains key = true ↔ key ∈ c.keys := by
  simp [contains, keys]

theorem get?_isSome : (c.get? key).isSome ↔ key ∈ c.keys := by
  simp [get?, keys, List.find?_isSome]

theorem get?_eq_none : c.get? key = none ↔ key ∉ c.keys := by
  rw [← get?_isSome, Option.not_isSome_iff_eq_none]

theorem ofPairs_entries (hnodup : c.keys.Nodup) : ofPairs c.entries = c := by
  have hfold (before es : List (String × α)) (hnodup : ((before ++ es).map Prod.fst).Nodup) :
      es.foldl (fun (c : Context α) p => c.set p.1 p.2) ⟨before⟩ = ⟨before ++ es⟩ := by
    induction es generalizing before with
    | nil => rw [List.append_nil, List.foldl_nil]
    | cons e es ih =>
      have hnew : e.1 ∉ before.map Prod.fst := by
        rw [List.map_append, List.nodup_append] at hnodup
        exact fun hmem => hnodup.2.2 _ hmem _ List.mem_cons_self rfl
      rw [List.foldl_cons, set, insertEntry_of_not_mem hnew, ih _ (by simpa using hnodup),
        List.append_assoc]
      rfl
  exact hfold [] c.entries hnodup

end Readers

/-- However a context is seeded and edited, what is read from it is one and the same: each key that
is present once, with what was last written to it and in the order in which it last became
present. -/
theorem readers_agree (seed : List (String × Value)) (edits : List (Edit Value)) :
    let c := (ofPairs seed).after edits
    let history := seeding seed ++ edits
    c.keys.Nodup ∧ (∀ key value, (key, value) ∈ c.entries ↔ Written history key value) ∧
      c.keys.Pairwise (fun a b => ∃ m n, Since history a m ∧ Since history b n ∧ m < n) ∧
      c.keys = c.entries.map Prod.fst ∧ c.size = c.entries.length ∧
      (∀ key, (c.contains key = true ↔ key ∈ c.keys) ∧ ((c.get? key).isSome ↔ key ∈ c.keys) ∧
        ((c.delete key).1 = true ↔ key ∈ c.keys)) ∧
      (∀ key value, (key, value) ∈ c.entries →
        c.get? key = some value ∧ c.peek key = value ∧ c.mustGet key = .ok value) ∧
      (∀ key, key ∉ c.keys → c.peek key = .undefined ∧ c.mustGet key = .error (.missingKey key)) ∧
      (∃ fields, c.toRecord = .record fields ∧ (fields.map Prod.fst).Nodup ∧
        ∀ key value, (key, value) ∈ fields ↔ (key, value) ∈ c.entries) ∧
      (ofPairs c.entries).entries = c.entries := by
  intro c history
  have h : c.Recounts history := by
    change ((ofPairs seed).after edits).Recounts history
    rw [ofPairs_after]
    exact .after history
  refine ⟨h.distinct, h.written, h.ordered, rfl, rfl, ?_, ?_, ?_, ?_, ?_⟩
  · exact fun key => ⟨contains_eq_true, get?_isSome, contains_eq_true⟩
  · intro key value hmem
    have hget := (get?_eq_some h.distinct).mpr hmem
    exact ⟨hget, by rw [peek, hget, Option.getD_some], by rw [mustGet, hget]⟩
  · intro key habsent
    have hget := get?_eq_none.mpr habsent
    exact ⟨by rw [peek, hget, Option.getD_none], by rw [mustGet, hget]⟩
  · exact ⟨c.entries, rfl, h.distinct, fun _ _ => Iff.rfl⟩
  · rw [ofPairs_entries h.distinct]

example :
    ((ofPairs [("a", 1), ("b", 2), ("a", 3)]).after [.delete "a", .set "b" 4, .set "a" 5]).entries =
    [("b", 4), ("a", 5)] := by decide

end RuleForest.Context
