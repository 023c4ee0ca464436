import RuleForest.Log.Mirror
import RuleForest.Proofs.FileTree
import RuleForest.Proofs.Numerals

namespace RuleForest

namespace Text

theorem natDigits_injective {i j : Nat} (h : natDigits i = natDigits j) : i = j := by
  have hd := congrArg (Nat.ofDigitChars 10 · 0) h
  simpa only [natDigits, Nat.ofDigitChars_ten_toDigits] using hd

theorem length_natDigits_le {i j : Nat} (h : i ≤ j) :
    (natDigits i).length ≤ (natDigits j).length := by
  have hpos : 0 < (natDigits j).length := Nat.length_toDigits_pos
  have hj : j < 10 ^ (natDigits j).length :=
    (Nat.length_toDigits_le_iff (by omega) hpos).mp (Nat.le_refl _)
  exact (Nat.length_toDigits_le_iff (by omega) hpos).mpr (by omega)

theorem utf8ByteSize_of_isDigit {cs : List Char} (h : ∀ c ∈ cs, c.isDigit = true) :
    (String.ofList cs).utf8ByteSize = cs.length := by
  induction cs with
  | nil => rfl
  | cons c cs ih =>
    have hc : c.utf8Size = 1 := by
      have hd := h c List.mem_cons_self
      simp only [Char.isDigit, Bool.and_eq_true, decide_eq_true_eq] at hd
      rw [Char.utf8Size_eq_one_iff]
      exact UInt32.le_trans hd.2 (by decide)
    have hcs := ih fun d hd => h d (List.mem_cons_of_mem c hd)
    rw [String.ofList_cons, String.utf8ByteSize_append, String.utf8ByteSize_singleton,
      List.length_cons]
    omega

theorem utf8ByteSize_ofNat (i : Nat) : (ofNat i).utf8ByteSize = (natDigits i).length :=
  utf8ByteSize_of_isDigit fun _ hc => Nat.isDigit_of_mem_toDigits (by omega) (by omega) hc

end Text

namespace Mirror

variable {name : String} {up : Path} {i j last : Nat}

def slotName (name : String) : Nat → String
  | 0 => name
  | i + 1 => name ++ "." ++ Text.ofNat (i + 1)

def slot : Path → Nat → Path
  | [], _ => []
  | name :: up, i => slotName name i :: up

theorem slot_cons (name : String) (up : Path) (i : Nat) :
    slot (name :: up) i = slotName name i :: up := rfl

theorem slot_zero (p : Path) : slot p 0 = p := by
  cases p <;> rfl

theorem archive_ofInt {i : Nat} (hpos : 0 < i) (hi : i < Nat.pow 2 Number.significantBits)
    (p : Path) :
    archive p (.ofInt i) = slot p i := by
  obtain ⟨i, rfl⟩ := Nat.exists_eq_add_of_le' hpos
  have hsafe : (Number.ofInt (i + 1 : Nat)).IsSafe := ⟨rfl, hi⟩
  have htext : (Number.ofInt (i + 1 : Nat)).text = Text.ofNat (i + 1) := by
    rw [Number.text, hsafe.digits_eq]
    rfl
  cases p with
  | nil => rfl
  | cons name up => rw [archive, htext, slot_cons, slotName]

@[simp]
theorem slotName_inj : slotName name i = slotName name j ↔ i = j := by
  refine ⟨fun h => ?_, fun h => congrArg (slotName name) h⟩
  cases i with
  | zero =>
    cases j with
    | zero => rfl
    | succ j =>
      have hl := congrArg (fun s => s.toList.length) h
      simp [slotName] at hl
  | succ i =>
    cases j with
    | zero =>
      have hl := congrArg (fun s => s.toList.length) h
      simp [slotName] at hl
    | succ j =>
      simp only [slotName, String.append_right_inj] at h
      exact Text.natDigits_injective (String.ofList_injective h)

theorem isName_of_digit {c : Char} (hc : c.isDigit = true) (hn : c ∈ name.toList) :
    Path.IsName name := by
  refine ⟨?_, ?_, ?_⟩ <;> rintro rfl
  · cases hn
  · obtain rfl : c = '.' := by simpa using hn
    cases hc
  · obtain rfl : c = '.' := by simpa using hn
    cases hc

theorem isName_slotName_succ (name : String) (i : Nat) : Path.IsName (slotName name (i + 1)) := by
  have hpos : 0 < (Text.natDigits (i + 1)).length := Nat.length_toDigits_pos
  obtain ⟨c, hc⟩ := List.exists_mem_of_length_pos hpos
  apply isName_of_digit (Nat.isDigit_of_mem_toDigits (by omega) (by omega) hc)
  simp only [slotName, String.toList_append, List.mem_append]
  exact .inr (by simpa [Text.ofNat] using hc)

theorem isName_slotName (h : Path.IsName name) (i : Nat) : Path.IsName (slotName name i) := by
  cases i with
  | zero => exact h
  | succ i => exact isName_slotName_succ name i

theorem utf8ByteSize_slotName_le (name : String) (h : i ≤ j) :
    (slotName name i).utf8ByteSize ≤ (slotName name j).utf8ByteSize := by
  cases i with
  | zero =>
    cases j with
    | zero => exact Nat.le_refl _
    | succ j => simp only [slotName, String.utf8ByteSize_append]; omega
  | succ i =>
    obtain ⟨j, rfl⟩ := Nat.exists_eq_add_of_le' (show 1 ≤ j by omega)
    simp only [slotName, String.utf8ByteSize_append, Text.utf8ByteSize_ofNat]
    have := Text.length_natDigits_le h
    omega

theorem not_mem_slotName {c : Char} (hc : c ≠ '.') (hd : c.isDigit = false) (h : c ∉ name.toList)
    (i : Nat) :
    c ∉ (slotName name i).toList := by
  cases i with
  | zero => exact h
  | succ i =>
    have hdigits : c ∉ Text.natDigits (i + 1) := by
      intro hmem
      have := Nat.isDigit_of_mem_toDigits (by omega) (by omega) hmem
      rw [hd] at this
      cases this
    simp [slotName, Text.ofNat, h, hc, hdigits]

theorem mem_of_mem_name {c : Char} (h : c ∈ name.toList) (i : Nat) :
    c ∈ (slotName name i).toList := by
  cases i with
  | zero => exact h
  | succ i => simp [slotName, h]

theorem slot_inj {base : Path} :
    slotName name i :: base = slotName name j :: base ↔ i = j := by simp

variable [FileSystem]

structure Room (name : String) (up : Path) (last : Nat) : Prop where
  named : Path.IsName name
  allowed : Path.Allowed (slotName name last :: up)
  apart (i : Nat) : i ≤ last → slotName name i :: up.place ∉ up.route

instance (name : String) (up : Path) (last : Nat) : Decidable (Room name up last) :=
  decidable_of_iff (Path.IsName name ∧ Path.Allowed (slotName name last :: up) ∧
      ∀ i, i ≤ last → slotName name i :: up.place ∉ up.route)
    ⟨fun ⟨named, allowed, apart⟩ => ⟨named, allowed, apart⟩,
      fun ⟨named, allowed, apart⟩ => ⟨named, allowed, apart⟩⟩

theorem Room.of_directory {t : FileTree} (hname : Path.IsName name)
    (hallowed : Path.Allowed (name :: up)) (hdir : t.directoryError? up = none)
    (hplace : t.entryAt (name :: up.place) ≠ some .directory) : Room name up 0 := by
  refine ⟨hname, hallowed, fun i hi => ?_⟩
  obtain rfl := Nat.le_zero.mp hi
  exact FileTree.not_mem_route_of_entryAt hdir hplace

theorem Room.slot (h : Room name up last) (hi : i ≤ last) :
    Path.Allowed (slotName name i :: up) := by
  obtain ⟨hnul, hbytes⟩ := Path.error?_eq_none.mp h.allowed.whole
  have hsize := utf8ByteSize_slotName_le name hi
  refine ⟨Path.error?_eq_none.mpr ⟨?_, ?_⟩, ?_⟩
  · intro n hn
    rcases List.mem_cons.mp hn with rfl | hn
    · apply not_mem_slotName (by decide) (by decide)
      exact fun hmem => hnul _ List.mem_cons_self (mem_of_mem_name hmem last)
    · exact hnul n (List.mem_cons_of_mem _ hn)
  · rw [Path.bytes_cons] at hbytes ⊢
    omega
  · intro n hn
    rcases List.mem_cons.mp hn with rfl | hn
    · have hl := h.allowed.names _ List.mem_cons_self
      simp only [Path.nameTooLong, decide_eq_false_iff_not] at hl ⊢
      omega
    · exact h.allowed.names n (List.mem_cons_of_mem _ hn)

theorem Room.mono {last' : Nat} (h : Room name up last) (hle : last' ≤ last) : Room name up last' :=
  ⟨h.named, h.slot hle, fun i hi => h.apart i (hi.trans hle)⟩

theorem Room.not_suffix {q : Path} (h : Room name up last) (hi : i ≤ last) (hq : q ∈ up.route) :
    ¬slotName name i :: up.place <:+ q := fun hs => h.apart i hi (Path.mem_route_of_suffix hq hs)

theorem Room.place_self (h : Room name up last) : Path.place (name :: up) = name :: up.place :=
  Path.place_of_isName h.named up

theorem Room.place_not_mem (h : Room name up last) :
    Path.place (name :: up) ∉ Path.around (name :: up) :=
  h.place_self ▸ h.apart 0 (Nat.zero_le last)

theorem Room.place_slot (h : Room name up last) (i : Nat) :
    Path.place (slotName name i :: up) = slotName name i :: up.place :=
  Path.place_of_isName (isName_slotName h.named i) up

def HasRoom (p : Path) (last : Nat) : Prop := ∃ name up, p = name :: up ∧ Room name up last

theorem hasRoom_cons : HasRoom (name :: up) last ↔ Room name up last := by
  constructor
  · rintro ⟨_, _, hp, room⟩
    obtain ⟨rfl, rfl⟩ := List.cons.inj hp
    exact room
  · exact fun room => ⟨name, up, rfl, room⟩

instance (p : Path) (last : Nat) : Decidable (HasRoom p last) :=
  match p with
  | [] => isFalse fun ⟨_, _, hp, _⟩ => List.cons_ne_nil _ _ hp.symm
  | _ :: _ => decidable_of_iff _ hasRoom_cons.symm

theorem HasRoom.file_ne {file : String} (h : HasRoom (Path.ofText file) last) : file ≠ "" := by
  rintro rfl
  obtain ⟨name, up, hp, -⟩ := h
  cases hp

end Mirror

end RuleForest
