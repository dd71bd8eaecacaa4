import GpuWorkerPool.Base.Json
import Mathlib.Tactic.NormNum
import Mathlib.Tactic.IntervalCases

/-!
The canonical text determines the value. Every text is a prefix code once it is followed by a
delimiter, and two values with one text are equal as JSON values.
-/

namespace Base

/-! ### Numbers -/

theorem toDigits_injective {m n : Nat} (h : Nat.toDigits 10 m = Nat.toDigits 10 n) : m = n := by
  rw [← Nat.ofDigitChars_ten_toDigits (n := m), h, Nat.ofDigitChars_ten_toDigits]

theorem isDigit_of_mem_toDigits {n : Nat} {c : Char} (h : c ∈ Nat.toDigits 10 n) : c.isDigit :=
  Nat.isDigit_of_mem_toDigits (by decide) (by decide) h

/-- A text splits in one way at the first character of a kind. -/
theorem split_unique {p : Char → Prop} {s t x y : List Char} (hs : ∀ c ∈ s, p c)
    (ht : ∀ c ∈ t, p c) (hx : ∀ c ∈ x.head?, ¬ p c) (hy : ∀ c ∈ y.head?, ¬ p c)
    (h : s ++ x = t ++ y) : s = t ∧ x = y := by
  induction s generalizing t with
  | nil =>
      cases t with
      | nil => exact ⟨rfl, h⟩
      | cons d t =>
          rw [List.nil_append] at h
          exact absurd (ht d (by simp)) (hx d (by simp [h]))
  | cons c s ih =>
      cases t with
      | nil =>
          rw [List.nil_append] at h
          exact absurd (hs c (by simp)) (hy c (by simp [← h]))
      | cons d t =>
          rw [List.cons_append, List.cons_append, List.cons.injEq] at h
          obtain ⟨heq, hrest⟩ := ih (fun c hc => hs c (List.mem_cons_of_mem _ hc))
            (fun c hc => ht c (List.mem_cons_of_mem _ hc)) h.2
          exact ⟨by rw [h.1, heq], hrest⟩

namespace Float64

theorem eq_of_parts {f g : Float64} (hsign : f.negative = g.negative)
    (hexponent : f.exponentBits = g.exponentBits) (hfraction : f.fractionBits = g.fractionBits) :
    f = g := by
  obtain ⟨b⟩ := f
  obtain ⟨d⟩ := g
  simp only [negative, exponentBits, fractionBits, BitVec.msb_eq_decide] at hsign hexponent hfraction
  have hb := b.isLt
  have hd := d.isLt
  have hhalf : (2 ^ 63 ≤ b.toNat) = (2 ^ 63 ≤ d.toNat) := by simpa using hsign
  congr 1
  apply BitVec.eq_of_toNat_eq
  by_cases hge : 2 ^ 63 ≤ b.toNat
  · have hge' : 2 ^ 63 ≤ d.toNat := hhalf ▸ hge
    omega
  · have hlt : ¬ 2 ^ 63 ≤ d.toNat := hhalf ▸ hge
    omega

end Float64

/-- Writes a float as fraction bits, sign and exponent bits. It stands for `float.__repr__` where
an instance is needed and no float is written. -/
@[reducible] def FloatRepr.byParts : FloatRepr where
  repr f := Nat.toDigits 10 f.fractionBits ++
    'e' :: (if f.negative then '-' else '+') :: Nat.toDigits 10 f.exponentBits
  repr_injective f g _ _ h := by
    have hdigit : ∀ n : Nat, ∀ c ∈ Nat.toDigits 10 n, c.isDigit = true :=
      fun n c hc => isDigit_of_mem_toDigits hc
    have hmark : ∀ rest : List Char, ∀ c ∈ ('e' :: rest).head?, ¬ c.isDigit = true := by
      intro rest c hc
      rw [List.head?_cons, Option.mem_def, Option.some_inj] at hc
      exact hc ▸ by decide
    obtain ⟨hfraction, hrest⟩ := split_unique (hdigit _) (hdigit _) (hmark _) (hmark _) h
    rw [List.cons_inj_right, List.cons.injEq] at hrest
    refine Float64.eq_of_parts ?_ (toDigits_injective hrest.2) (toDigits_injective hfraction)
    have hsign := hrest.1
    cases hf : f.negative <;> cases hg : g.negative <;> simp [hf, hg] at hsign ⊢
  repr_head f _ := by
    cases hdigits : Nat.toDigits 10 f.fractionBits with
    | nil => exact absurd hdigits Nat.toDigits_ne_nil
    | cons c rest =>
        exact ⟨c, _, rfl, Or.inr (isDigit_of_mem_toDigits (hdigits ▸ List.mem_cons_self))⟩
  repr_chars f _ c hc := by
    rcases List.mem_append.mp hc with hfraction | hrest
    · exact Or.inl (isDigit_of_mem_toDigits hfraction)
    · rcases List.mem_cons.mp hrest with rfl | hrest
      · simp
      · rcases List.mem_cons.mp hrest with rfl | hexponent
        · split <;> simp
        · exact Or.inl (isDigit_of_mem_toDigits hexponent)
  repr_not_integer f _ := Or.inr (by simp)

namespace JsonValue

/-! ### Strings -/

/-- The value of a lower case hexadecimal digit. -/
def hexDigitValue (c : Char) : Nat :=
  if c.isDigit then c.toNat - 48 else c.toNat - 87

def hexValue (a b c d : Char) : Nat :=
  hexDigitValue a * 4096 + hexDigitValue b * 256 + hexDigitValue c * 16 + hexDigitValue d

/-- The character a four digit escape stands for, which takes a second escape when the first is a
high surrogate. -/
def unescapeHex : List Char → Option (Char × List Char)
  | a :: b :: c :: d :: rest =>
      let high := hexValue a b c d
      if 0xD800 ≤ high ∧ high < 0xDC00 then
        match rest with
        | _ :: _ :: a :: b :: c :: d :: rest =>
            some (Char.ofNat (0x10000 + (high - 0xD800) * 0x400 + (hexValue a b c d - 0xDC00)), rest)
        | _ => none
      else some (Char.ofNat high, rest)
  | _ => none

/-- The character that a backslash and the rest of the text begin with. -/
def unescapeMark : List Char → Option (Char × List Char)
  | 'u' :: rest => unescapeHex rest
  | 'n' :: rest => some ('\n', rest)
  | 'r' :: rest => some ('\r', rest)
  | 't' :: rest => some ('\t', rest)
  | 'f' :: rest => some (Char.ofNat 0x0C, rest)
  | 'b' :: rest => some (Char.ofNat 0x08, rest)
  | c :: rest => some (c, rest)
  | [] => none

/-- The first character of an escaped text. -/
def unescape : List Char → Option (Char × List Char)
  | [] => none
  | c :: rest => if c = '\\' then unescapeMark rest else some (c, rest)

theorem hexDigitValue_digitChar (d : Nat) (h : d < 16) :
    hexDigitValue (Nat.digitChar d) = d := by
  interval_cases d <;> rfl

theorem hexValue_hexEscape {n : Nat} (h : n < 0x10000) :
    hexValue (Nat.digitChar (n / 4096 % 16)) (Nat.digitChar (n / 256 % 16))
      (Nat.digitChar (n / 16 % 16)) (Nat.digitChar (n % 16)) = n := by
  have hlt : ∀ m : Nat, m % 16 < 16 := fun m => Nat.mod_lt m (by decide)
  simp only [hexValue, hexDigitValue_digitChar _ (hlt _)]
  omega

theorem unescapeHex_basic {c : Char} (h : c.toNat < 0x10000) (rest : List Char) :
    unescape (hexEscape c.toNat ++ rest) = some (c, rest) := by
  have hvalid : c.toNat < 0xD800 ∨ 0xDFFF < c.toNat := by
    rcases c.valid with hlow | hhigh
    · exact Or.inl hlow
    · exact Or.inr hhigh.1
  have hnot : ¬ (0xD800 ≤ c.toNat ∧ c.toNat < 0xDC00) := by omega
  simp [hexEscape, unescape, unescapeMark, unescapeHex, hexValue_hexEscape h, hnot]

theorem unescapeHex_pair {c : Char} (h : ¬ c.toNat < 0x10000) (rest : List Char) :
    unescape (hexEscape (0xD800 + (c.toNat - 0x10000) / 0x400) ++
      hexEscape (0xDC00 + (c.toNat - 0x10000) % 0x400) ++ rest) = some (c, rest) := by
  have hmax : c.toNat < 0x110000 := by
    rcases c.valid with hlow | hhigh
    · have : c.toNat < 0xD800 := hlow
      omega
    · exact hhigh.2
  have hhigh : 0xD800 + (c.toNat - 0x10000) / 0x400 < 0x10000 := by omega
  have hlow : 0xDC00 + (c.toNat - 0x10000) % 0x400 < 0x10000 := by omega
  have hsurrogate : 0xD800 ≤ 0xD800 + (c.toNat - 0x10000) / 0x400 ∧
      0xD800 + (c.toNat - 0x10000) / 0x400 < 0xDC00 := by omega
  have hsum : 0x10000 + (0xD800 + (c.toNat - 0x10000) / 0x400 - 0xD800) * 0x400 +
      (0xDC00 + (c.toNat - 0x10000) % 0x400 - 0xDC00) = c.toNat := by omega
  simp only [hexEscape, List.cons_append, List.nil_append, unescape, if_true, unescapeMark,
    unescapeHex, hexValue_hexEscape hhigh, hexValue_hexEscape hlow, hsurrogate, and_self, hsum,
    Char.ofNat_toNat]

/-- An escaped character can be read back off the front of any text. -/
theorem unescape_escapeChar (c : Char) (rest : List Char) :
    unescape (escapeChar c ++ rest) = some (c, rest) := by
  unfold escapeChar
  split
  · rename_i h
    subst h
    rfl
  split
  · rename_i h
    subst h
    rfl
  split
  · rename_i h
    subst h
    rfl
  split
  · rename_i h
    subst h
    rfl
  split
  · rename_i h
    subst h
    rfl
  split
  · rename_i h
    subst h
    rfl
  split
  · rename_i h
    subst h
    rfl
  split
  · rename_i hbackslash _ _ _ _ _ _
    simp [unescape, hbackslash]
  split
  · rename_i h
    exact unescapeHex_basic h rest
  · rename_i h
    exact unescapeHex_pair h rest

theorem escaped_unique {cs ds x y : List Char}
    (h : cs.flatMap escapeChar ++ '"' :: x = ds.flatMap escapeChar ++ '"' :: y) :
    cs = ds ∧ x = y := by
  have hquote : ∀ (d : Char) (ds y x : List Char),
      '"' :: x ≠ (d :: ds).flatMap escapeChar ++ '"' :: y := by
    intro d ds y x heq
    rw [List.flatMap_cons, List.append_assoc] at heq
    have hread : unescape ('"' :: x) = some ('"', x) := rfl
    rw [heq, unescape_escapeChar, Option.some_inj, Prod.mk.injEq] at hread
    rw [hread.1] at heq
    exact absurd (List.cons.inj heq).1 (by decide)
  induction cs generalizing ds with
  | nil =>
      cases ds with
      | nil => exact ⟨rfl, (List.cons.inj h).2⟩
      | cons d ds => exact absurd h (hquote d ds y x)
  | cons c cs ih =>
      cases ds with
      | nil => exact absurd h.symm (hquote c cs x y)
      | cons d ds =>
          rw [List.flatMap_cons, List.flatMap_cons, List.append_assoc, List.append_assoc] at h
          have hread := congrArg unescape h
          rw [unescape_escapeChar, unescape_escapeChar, Option.some_inj, Prod.mk.injEq] at hread
          obtain ⟨heq, hrest⟩ := ih hread.2
          exact ⟨by rw [hread.1, heq], hrest⟩

theorem encodeString_unique {s t : String} {x y : List Char}
    (h : encodeString s ++ x = encodeString t ++ y) : s = t ∧ x = y := by
  simp only [encodeString, List.cons_append, List.append_assoc, List.cons.injEq, true_and,
    List.nil_append] at h
  obtain ⟨heq, hrest⟩ := escaped_unique h
  exact ⟨String.toList_injective heq, hrest⟩

/-! ### Numbers -/

def IsNumberChar (c : Char) : Prop := c.isDigit ∨ c = '-' ∨ c = '+' ∨ c = '.' ∨ c = 'e'

/-- What may follow a value inside a text. -/
def Delimited (rest : List Char) : Prop := ∀ c ∈ rest.head?, c = ',' ∨ c = ']' ∨ c = '}'

theorem Delimited.not_number {rest : List Char} (h : Delimited rest) :
    ∀ c ∈ rest.head?, ¬ IsNumberChar c := by
  intro c hc
  rcases h c hc with rfl | rfl | rfl <;> simp [IsNumberChar]

theorem delimited_cons {c : Char} (h : c = ',' ∨ c = ']' ∨ c = '}') (rest : List Char) :
    Delimited (c :: rest) := by
  intro d hd
  rw [List.head?_cons, Option.mem_def, Option.some_inj] at hd
  exact hd ▸ h

/-- The text of an integer. -/
theorem toList_toString_int (n : Int) :
    (toString n).toList = if 0 ≤ n then Nat.toDigits 10 n.toNat else '-' :: Nat.toDigits 10 (-n).toNat := by
  cases n with
  | ofNat m => simp [toString, Int.repr]
  | negSucc m => simp [toString, Int.repr]

theorem int_text_injective {m n : Int} (h : (toString m).toList = (toString n).toList) : m = n := by
  have hsign : ∀ k l : Nat, Nat.toDigits 10 k ≠ '-' :: Nat.toDigits 10 l := by
    intro k l heq
    have hdigit := isDigit_of_mem_toDigits (n := k) (c := '-') (by simp [heq])
    exact absurd hdigit (by decide)
  rw [toList_toString_int, toList_toString_int] at h
  split at h <;> split at h
  · have := toDigits_injective h
    omega
  · exact absurd h (hsign _ _)
  · exact absurd h.symm (hsign _ _)
  · have := toDigits_injective (List.cons.inj h).2
    omega

theorem int_text_chars {n : Int} {c : Char} (h : c ∈ (toString n).toList) :
    c.isDigit ∨ c = '-' := by
  rw [toList_toString_int] at h
  split at h
  · exact Or.inl (isDigit_of_mem_toDigits h)
  · rcases List.mem_cons.mp h with rfl | hdigits
    · exact Or.inr rfl
    · exact Or.inl (isDigit_of_mem_toDigits hdigits)

theorem int_text_head (n : Int) :
    ∃ c rest, (toString n).toList = c :: rest ∧ (c = '-' ∨ c.isDigit) := by
  cases htext : (toString n).toList with
  | nil =>
      rw [toList_toString_int] at htext
      split at htext
      · exact absurd htext Nat.toDigits_ne_nil
      · exact absurd htext (by simp)
  | cons c rest => exact ⟨c, rest, rfl, (int_text_chars (htext ▸ List.mem_cons_self)).symm⟩

/-! ### Sequences -/

/-- Two texts that cannot be confused in front of a delimiter. -/
def Cancels (s t : List Char) : Prop :=
  ∀ x y, Delimited x → Delimited y → s ++ x = t ++ y → s = t ∧ x = y

/-- A text that does not begin like the end of a bracket. -/
def Opens (close : Char) (s : List Char) : Prop := ∃ c rest, s = c :: rest ∧ c ≠ close

theorem commaSeparated_cons_cons (s s' : List Char) (ss : List (List Char)) :
    commaSeparated (s :: s' :: ss) = s ++ ',' :: commaSeparated (s' :: ss) := rfl

theorem Opens.commaSeparated_ne {close : Char} {s : List Char} (h : Opens close s)
    (ss : List (List Char)) (x y : List Char) :
    commaSeparated (s :: ss) ++ x ≠ close :: y := by
  obtain ⟨c, rest, rfl, hne⟩ := h
  intro heq
  cases ss with
  | nil => exact hne (List.cons.inj heq).1
  | cons s' ss => exact hne (List.cons.inj heq).1

/-- The texts in a bracket are determined one by one. -/
theorem commaSeparated_unique {close : Char} (hclose : close = ']' ∨ close = '}')
    {ss ts : List (List Char)} {x y : List Char}
    (hcancel : ∀ s ∈ ss, ∀ t ∈ ts, Cancels s t) (hss : ∀ s ∈ ss, Opens close s)
    (hts : ∀ t ∈ ts, Opens close t)
    (h : commaSeparated ss ++ close :: x = commaSeparated ts ++ close :: y) :
    ss = ts ∧ x = y := by
  have hcomma : ∀ rest, Delimited (',' :: rest) := delimited_cons (Or.inl rfl)
  have hend : ∀ rest, Delimited (close :: rest) := delimited_cons (Or.inr hclose)
  have hne : close ≠ ',' := by rcases hclose with rfl | rfl <;> decide
  induction ss generalizing ts with
  | nil =>
      cases ts with
      | nil => exact ⟨rfl, (List.cons.inj h).2⟩
      | cons t ts => exact absurd h.symm ((hts t (by simp)).commaSeparated_ne ts _ _)
  | cons s ss ih =>
      cases ts with
      | nil => exact absurd h ((hss s (by simp)).commaSeparated_ne ss _ _)
      | cons t ts =>
          have hhead := hcancel s (by simp) t (by simp)
          cases ss with
          | nil =>
              cases ts with
              | nil =>
                  obtain ⟨heq, hrest⟩ := hhead _ _ (hend x) (hend y) h
                  exact ⟨by rw [heq], (List.cons.inj hrest).2⟩
              | cons t' ts =>
                  rw [commaSeparated_cons_cons, List.append_assoc] at h
                  exact absurd (List.cons.inj (hhead _ _ (hend _) (hcomma _) h).2).1 hne
          | cons s' ss =>
              cases ts with
              | nil =>
                  rw [commaSeparated_cons_cons, List.append_assoc] at h
                  exact absurd (List.cons.inj (hhead _ _ (hcomma _) (hend _) h).2).1.symm hne
              | cons t' ts =>
                  rw [commaSeparated_cons_cons, commaSeparated_cons_cons, List.append_assoc,
                    List.append_assoc] at h
                  obtain ⟨heq, hrest⟩ := hhead _ _ (hcomma _) (hcomma _) h
                  obtain ⟨htail, hxy⟩ := ih (fun s hs t ht => hcancel s
                    (List.mem_cons_of_mem _ hs) t (List.mem_cons_of_mem _ ht))
                    (fun s hs => hss s (List.mem_cons_of_mem _ hs))
                    (fun t ht => hts t (List.mem_cons_of_mem _ ht)) (List.cons.inj hrest).2
                  exact ⟨by rw [heq, htail], hxy⟩

theorem encodeMember_opens (member : String × List Char) : Opens '}' (encodeMember member) :=
  ⟨'"', _, rfl, by decide⟩

theorem encodeMember_cancels {member member' : String × List Char}
    (h : Cancels member.2 member'.2) : Cancels (encodeMember member) (encodeMember member') := by
  intro x y hx hy heq
  rw [encodeMember, encodeMember, List.append_assoc, List.append_assoc] at heq
  obtain ⟨hname, hrest⟩ := encodeString_unique heq
  obtain ⟨hvalue, hxy⟩ := h x y hx hy (List.cons.inj hrest).2
  exact ⟨by rw [encodeMember, encodeMember, hname, hvalue], hxy⟩

theorem encodeMember_injective {member member' : String × List Char}
    (h : encodeMember member = encodeMember member') : member = member' := by
  obtain ⟨hname, hrest⟩ := encodeString_unique h
  exact Prod.ext hname (List.cons.inj hrest).2

theorem sortMembers_perm (members : List (String × List Char)) :
    (sortMembers members).Perm members :=
  List.perm_insertionSort _ members

theorem mem_sortMembers {member : String × List Char} {members : List (String × List Char)} :
    member ∈ sortMembers members ↔ member ∈ members :=
  (sortMembers_perm members).mem_iff

/-- Members under distinct names are sorted into one list, whatever their order. -/
theorem sortMembers_eq_of_perm {members others : List (String × List Char)}
    (hnodup : (members.map Prod.fst).Nodup) (hperm : members.Perm others) :
    sortMembers members = sortMembers others := by
  have : Std.Total fun a b : String × List Char => a.1 ≤ b.1 := ⟨fun a b => le_total a.1 b.1⟩
  have : IsTrans (String × List Char) fun a b => a.1 ≤ b.1 := ⟨fun _ _ _ => le_trans⟩
  have hsorts := (sortMembers_perm members).trans (hperm.trans (sortMembers_perm others).symm)
  refine hsorts.eq_of_pairwise (fun a b ha hb hab hba => ?_)
    (List.pairwise_insertionSort _ _) (List.pairwise_insertionSort _ _)
  have hmem := mem_sortMembers.mp ha
  have hmem' := hperm.mem_iff.mpr (mem_sortMembers.mp hb)
  exact List.inj_on_of_nodup_map hnodup hmem hmem' (le_antisymm hab hba)

/-- The texts of two objects followed by anything have the same sorted members. -/
theorem sortedMembers_unique {members others : List (String × List Char)} {x y : List Char}
    (hcancel : ∀ m ∈ members, ∀ o ∈ others, Cancels m.2 o.2)
    (h : commaSeparated ((sortMembers members).map encodeMember) ++ '}' :: x =
      commaSeparated ((sortMembers others).map encodeMember) ++ '}' :: y) :
    sortMembers members = sortMembers others ∧ x = y := by
  have hunique := commaSeparated_unique (Or.inr rfl) (fun s hs t ht => ?_) (fun s hs => ?_)
    (fun t ht => ?_) h
  · exact ⟨List.map_injective_iff.mpr (fun _ _ => encodeMember_injective) hunique.1, hunique.2⟩
  · obtain ⟨m, hm, rfl⟩ := List.mem_map.mp hs
    obtain ⟨o, ho, rfl⟩ := List.mem_map.mp ht
    exact encodeMember_cancels (hcancel m (mem_sortMembers.mp hm) o (mem_sortMembers.mp ho))
  · obtain ⟨m, -, rfl⟩ := List.mem_map.mp hs
    exact encodeMember_opens m
  · obtain ⟨o, -, rfl⟩ := List.mem_map.mp ht
    exact encodeMember_opens o

/-! ### Values -/

theorem finiteItems_iff {items : List JsonValue} :
    finiteItems items ↔ ∀ item ∈ items, item.finite := by
  induction items with
  | nil => simp [finiteItems]
  | cons item rest ih => simp [finiteItems, ih]

theorem finiteMembers_iff {members : List (String × JsonValue)} :
    finiteMembers members ↔ ∀ member ∈ members, member.2.finite := by
  induction members with
  | nil => simp [finiteMembers]
  | cons member rest ih => simp [finiteMembers, ih]

theorem wellFormedItems_iff {items : List JsonValue} :
    wellFormedItems items ↔ ∀ item ∈ items, item.wellFormed := by
  induction items with
  | nil => simp [wellFormedItems]
  | cons item rest ih => simp [wellFormedItems, ih]

theorem wellFormedMembers_iff {members : List (String × JsonValue)} :
    wellFormedMembers members ↔ ∀ member ∈ members, member.2.wellFormed := by
  induction members with
  | nil => simp [wellFormedMembers]
  | cons member rest ih => simp [wellFormedMembers, ih]

theorem wellFormed_dict {members : List (String × JsonValue)} :
    (dict members).wellFormed ↔
      (members.map Prod.fst).Nodup ∧ ∀ member ∈ members, member.2.wellFormed := by
  rw [wellFormed, Bool.and_eq_true, decide_eq_true_eq, wellFormedMembers_iff]

variable [FloatRepr]

theorem encodeItems_eq_map (items : List JsonValue) : encodeItems items = items.map encode := by
  induction items with
  | nil => rfl
  | cons item rest ih => rw [encodeItems, ih, List.map_cons]

theorem encodeMembers_eq_map (members : List (String × JsonValue)) :
    encodeMembers members = members.map fun member => (member.1, encode member.2) := by
  induction members with
  | nil => rfl
  | cons member rest ih => rw [encodeMembers, ih, List.map_cons]

/-- The kind of value that a first character announces. -/
def headKind (c : Char) : Nat :=
  if c = 'n' then 0
  else if c = 't' then 1
  else if c = 'f' then 2
  else if c = '"' then 3
  else if c = '[' then 4
  else if c = '{' then 5
  else if c = '-' ∨ c.isDigit then 6
  else 7

def kind : JsonValue → Nat
  | .null => 0
  | .bool true => 1
  | .bool false => 2
  | .str _ => 3
  | .list _ => 4
  | .dict _ => 5
  | .int _ => 6
  | .float _ => 6

omit [FloatRepr] in
theorem headKind_number {c : Char} (h : c = '-' ∨ c.isDigit) : headKind c = 6 := by
  have hne : ∀ d : Char, d ≠ '-' → d.isDigit = false → c ≠ d := by
    rintro d hminus hdigit rfl
    rcases h with h | h
    · exact hminus h
    · exact absurd h (by simp [hdigit])
  simp [headKind, h, hne]

theorem encode_head (v : JsonValue) (hv : v.finite) :
    ∃ c rest, encode v = c :: rest ∧ headKind c = kind v := by
  cases v with
  | null => exact ⟨_, _, rfl, rfl⟩
  | bool b => cases b <;> exact ⟨_, _, rfl, rfl⟩
  | str s => exact ⟨_, _, rfl, rfl⟩
  | list items => exact ⟨_, _, rfl, rfl⟩
  | dict members => exact ⟨_, _, rfl, rfl⟩
  | int n =>
      obtain ⟨c, rest, htext, hc⟩ := int_text_head n
      exact ⟨c, rest, htext, headKind_number hc⟩
  | float f =>
      obtain ⟨c, rest, htext, hc⟩ := FloatRepr.repr_head f hv
      exact ⟨c, rest, htext, headKind_number hc⟩

theorem number_text {v : JsonValue} (hv : v.finite) (hkind : kind v = 6) :
    ∀ c ∈ encode v, IsNumberChar c := by
  intro c hc
  cases v with
  | int n => exact (int_text_chars hc).imp_right Or.inl
  | float f => exact FloatRepr.repr_chars f hv c hc
  | null => exact absurd hkind (by decide)
  | bool b => cases b <;> exact absurd hkind (by decide)
  | str s => exact absurd hkind (by simp [kind])
  | list items => exact absurd hkind (by simp [kind])
  | dict members => exact absurd hkind (by simp [kind])

theorem kind_eq_of_append {v w : JsonValue} {x y : List Char} (hv : v.finite) (hw : w.finite)
    (h : encode v ++ x = encode w ++ y) : kind v = kind w := by
  obtain ⟨c, rest, hc, hkind⟩ := encode_head v hv
  obtain ⟨d, rest', hd, hkind'⟩ := encode_head w hw
  rw [hc, hd, List.cons_append, List.cons_append, List.cons.injEq] at h
  rw [← hkind, ← hkind', h.1]

theorem encode_opens {close : Char} (hclose : close = ']' ∨ close = '}') {v : JsonValue}
    (hv : v.finite) : Opens close (encode v) := by
  obtain ⟨c, rest, htext, hkind⟩ := encode_head v hv
  refine ⟨c, rest, htext, ?_⟩
  rintro rfl
  have hbad : headKind c = 7 := by rcases hclose with rfl | rfl <;> decide
  rw [hbad] at hkind
  cases v with
  | bool b => cases b <;> exact absurd hkind (by decide)
  | _ => exact absurd hkind (by simp [kind])

theorem itemTexts_unique {items others : List JsonValue} {x y : List Char}
    (hitems : ∀ item ∈ items, item.finite) (hothers : ∀ other ∈ others, other.finite)
    (hcancel : ∀ s ∈ encodeItems items, ∀ w, w.finite → Cancels s (encode w))
    (h : commaSeparated (encodeItems items) ++ ']' :: x =
      commaSeparated (encodeItems others) ++ ']' :: y) :
    encodeItems items = encodeItems others ∧ x = y := by
  refine commaSeparated_unique (Or.inl rfl) (fun s hs t ht => ?_) (fun s hs => ?_)
    (fun t ht => ?_) h
  · rw [encodeItems_eq_map] at ht
    obtain ⟨w, hw, rfl⟩ := List.mem_map.mp ht
    exact hcancel s hs w (hothers w hw)
  · rw [encodeItems_eq_map] at hs
    obtain ⟨v, hv, rfl⟩ := List.mem_map.mp hs
    exact encode_opens (Or.inl rfl) (hitems v hv)
  · rw [encodeItems_eq_map] at ht
    obtain ⟨w, hw, rfl⟩ := List.mem_map.mp ht
    exact encode_opens (Or.inl rfl) (hothers w hw)

mutual

/-- The texts of two values cannot be confused in front of a delimiter. -/
theorem encode_cancels (v : JsonValue) (hv : v.finite) (w : JsonValue) (hw : w.finite) :
    Cancels (encode v) (encode w) := by
  intro x y hx hy heq
  have hkind := kind_eq_of_append hv hw heq
  have hnumber : kind v = 6 → encode v = encode w ∧ x = y := fun h6 =>
    split_unique (number_text hv h6) (number_text hw (hkind ▸ h6)) hx.not_number hy.not_number heq
  cases v with
  | int n => exact hnumber rfl
  | float f => exact hnumber rfl
  | null =>
      cases w with
      | null => exact ⟨rfl, List.append_cancel_left heq⟩
      | bool b => cases b <;> exact absurd hkind (by decide)
      | _ => exact absurd hkind (by simp [kind])
  | bool b =>
      cases w with
      | bool d =>
          cases b <;> cases d
          · exact ⟨rfl, List.append_cancel_left heq⟩
          · exact absurd hkind (by decide)
          · exact absurd hkind (by decide)
          · exact ⟨rfl, List.append_cancel_left heq⟩
      | _ => cases b <;> exact absurd hkind (by simp [kind])
  | str s =>
      cases w with
      | str t =>
          obtain ⟨hst, hxy⟩ := encodeString_unique heq
          exact ⟨by rw [hst], hxy⟩
      | bool b => cases b <;> exact absurd hkind (by simp [kind])
      | _ => exact absurd hkind (by simp [kind])
  | list items =>
      cases w with
      | list others =>
          simp only [encode, List.cons_append, List.append_assoc, List.nil_append,
            List.cons.injEq, true_and] at heq
          obtain ⟨htexts, hxy⟩ := itemTexts_unique (finiteItems_iff.mp hv) (finiteItems_iff.mp hw)
            (itemTexts_cancel items hv) heq
          exact ⟨by rw [encode, encode, htexts], hxy⟩
      | bool b => cases b <;> exact absurd hkind (by simp [kind])
      | _ => exact absurd hkind (by simp [kind])
  | dict members =>
      cases w with
      | dict others =>
          simp only [encode, List.cons_append, List.append_assoc, List.nil_append,
            List.cons.injEq, true_and] at heq
          have hcancel : ∀ m ∈ encodeMembers members, ∀ o ∈ encodeMembers others,
              Cancels m.2 o.2 := by
            intro m hm o ho
            rw [encodeMembers_eq_map] at ho
            obtain ⟨other, hother, rfl⟩ := List.mem_map.mp ho
            exact memberTexts_cancel members hv m hm other.2
              (finiteMembers_iff.mp hw other hother)
          obtain ⟨hsorted, hxy⟩ := sortedMembers_unique hcancel heq
          exact ⟨by rw [encode, encode, hsorted], hxy⟩
      | bool b => cases b <;> exact absurd hkind (by simp [kind])
      | _ => exact absurd hkind (by simp [kind])

theorem itemTexts_cancel (items : List JsonValue) (hitems : finiteItems items) :
    ∀ s ∈ encodeItems items, ∀ w, w.finite → Cancels s (encode w) := by
  cases items with
  | nil => simp [encodeItems]
  | cons item rest =>
      rw [finiteItems, Bool.and_eq_true] at hitems
      rw [encodeItems, List.forall_mem_cons]
      exact ⟨encode_cancels item hitems.1, itemTexts_cancel rest hitems.2⟩

theorem memberTexts_cancel (members : List (String × JsonValue)) (hmembers : finiteMembers members) :
    ∀ m ∈ encodeMembers members, ∀ w, w.finite → Cancels m.2 (encode w) := by
  cases members with
  | nil => simp [encodeMembers]
  | cons member rest =>
      obtain ⟨name, value⟩ := member
      rw [finiteMembers, Bool.and_eq_true] at hmembers
      rw [encodeMembers, List.forall_mem_cons]
      exact ⟨encode_cancels value hmembers.1, memberTexts_cancel rest hmembers.2⟩

end

/-! ### One text, one value -/

omit [FloatRepr] in
theorem lookup_eq_of_mem {members : List (String × JsonValue)}
    (hnodup : (members.map Prod.fst).Nodup) {name : String} {value : JsonValue}
    (hmem : (name, value) ∈ members) : members.lookup name = some value := by
  induction members with
  | nil => simp at hmem
  | cons member rest ih =>
      obtain ⟨name', value'⟩ := member
      rw [List.map_cons, List.nodup_cons] at hnodup
      rw [List.lookup_cons]
      rcases List.mem_cons.mp hmem with heq | hrest
      · obtain ⟨rfl, rfl⟩ := Prod.mk.inj heq
        simp
      · have hname : name ∈ rest.map Prod.fst := List.mem_map_of_mem hrest
        have hne : name ≠ name' := fun h => hnodup.1 (h ▸ hname)
        rw [beq_eq_false_iff_ne.mpr hne]
        exact ih hnodup.2 hrest

omit [FloatRepr] in
theorem mem_of_lookup {members : List (String × JsonValue)} {name : String} {value : JsonValue}
    (h : members.lookup name = some value) : (name, value) ∈ members := by
  obtain ⟨before, after, rfl, -⟩ := List.lookup_eq_some_iff.mp h
  simp

theorem int_text_ne_float {n : Int} {f : Float64} (hf : f.isFinite) :
    (toString n).toList ≠ FloatRepr.repr f := by
  intro h
  have hchar : ∀ c, (c = '.' ∨ c = 'e') → c ∉ FloatRepr.repr f := by
    intro c hc hmem
    rcases int_text_chars (h ▸ hmem) with hdigit | rfl
    · rcases hc with rfl | rfl <;> exact absurd hdigit (by decide)
    · exact absurd hc (by decide)
  rcases FloatRepr.repr_not_integer f hf with hdot | he
  · exact hchar '.' (Or.inl rfl) hdot
  · exact hchar 'e' (Or.inr rfl) he

mutual

/-- Values with one text are equal as JSON values. -/
theorem sameJson_of_encode (v : JsonValue) (hv : v.finite) (w : JsonValue) (hw : w.finite)
    (hform : w.wellFormed) (h : encode v = encode w) : sameJson v w := by
  have hkind := kind_eq_of_append hv hw (congrArg (· ++ []) h)
  cases v with
  | null =>
      cases w with
      | null => rfl
      | bool b => cases b <;> exact absurd hkind (by decide)
      | _ => exact absurd hkind (by simp [kind])
  | bool b =>
      cases w with
      | bool d =>
          cases b <;> cases d
          · rfl
          · exact absurd hkind (by decide)
          · exact absurd hkind (by decide)
          · rfl
      | _ => cases b <;> exact absurd hkind (by simp [kind])
  | int n =>
      cases w with
      | int m => exact decide_eq_true (int_text_injective h)
      | float g => exact absurd h (int_text_ne_float hw)
      | bool b => cases b <;> exact absurd hkind (by simp [kind])
      | _ => exact absurd hkind (by simp [kind])
  | float f =>
      cases w with
      | int m => exact absurd h.symm (int_text_ne_float hv)
      | float g => exact decide_eq_true (FloatRepr.repr_injective f g hv hw h)
      | bool b => cases b <;> exact absurd hkind (by simp [kind])
      | _ => exact absurd hkind (by simp [kind])
  | str s =>
      cases w with
      | str t => exact decide_eq_true (encodeString_unique (congrArg (· ++ []) h)).1
      | bool b => cases b <;> exact absurd hkind (by simp [kind])
      | _ => exact absurd hkind (by simp [kind])
  | list items =>
      cases w with
      | list others =>
          simp only [encode, List.cons.injEq, true_and] at h
          have htexts := (itemTexts_unique (finiteItems_iff.mp hv) (finiteItems_iff.mp hw)
            (itemTexts_cancel items hv) h).1
          exact sameItems_of_encode items hv others hw hform htexts
      | bool b => cases b <;> exact absurd hkind (by simp [kind])
      | _ => exact absurd hkind (by simp [kind])
  | dict members =>
      cases w with
      | dict others =>
          simp only [encode, List.cons.injEq, true_and] at h
          have hcancel : ∀ m ∈ encodeMembers members, ∀ o ∈ encodeMembers others,
              Cancels m.2 o.2 := by
            intro m hm o ho
            rw [encodeMembers_eq_map] at ho
            obtain ⟨other, hother, rfl⟩ := List.mem_map.mp ho
            exact memberTexts_cancel members hv m hm other.2
              (finiteMembers_iff.mp hw other hother)
          have hsorted := (sortedMembers_unique hcancel h).1
          have hperm : (encodeMembers members).Perm (encodeMembers others) :=
            (sortMembers_perm _).symm.trans (hsorted ▸ sortMembers_perm (encodeMembers others))
          have hlength : members.length = others.length := by
            simpa [encodeMembers_eq_map] using hperm.length_eq
          rw [sameJson, Bool.and_eq_true]
          exact ⟨decide_eq_true hlength,
            sameMembers_of_encode members hv others hw hform fun m hm => hperm.mem_iff.mp hm⟩
      | bool b => cases b <;> exact absurd hkind (by simp [kind])
      | _ => exact absurd hkind (by simp [kind])

theorem sameItems_of_encode (items : List JsonValue) (hitems : finiteItems items)
    (others : List JsonValue) (hothers : finiteItems others) (hform : wellFormedItems others)
    (h : encodeItems items = encodeItems others) : sameItems items others := by
  cases items with
  | nil =>
      cases others with
      | nil => rfl
      | cons other rest => exact absurd h (by simp [encodeItems])
  | cons item rest =>
      cases others with
      | nil => exact absurd h (by simp [encodeItems])
      | cons other rest' =>
          rw [finiteItems, Bool.and_eq_true] at hitems hothers
          rw [wellFormedItems, Bool.and_eq_true] at hform
          rw [encodeItems, encodeItems, List.cons.injEq] at h
          rw [sameItems, Bool.and_eq_true]
          exact ⟨sameJson_of_encode item hitems.1 other hothers.1 hform.1 h.1,
            sameItems_of_encode rest hitems.2 rest' hothers.2 hform.2 h.2⟩

theorem sameMembers_of_encode (members : List (String × JsonValue))
    (hmembers : finiteMembers members) (others : List (String × JsonValue))
    (hothers : finiteMembers others) (hform : (dict others).wellFormed)
    (h : ∀ m ∈ encodeMembers members, m ∈ encodeMembers others) : sameMembers members others := by
  cases members with
  | nil => rfl
  | cons member rest =>
      obtain ⟨name, value⟩ := member
      rw [finiteMembers, Bool.and_eq_true] at hmembers
      rw [encodeMembers, List.forall_mem_cons] at h
      obtain ⟨other, hother, htext⟩ : ∃ other, (name, other) ∈ others ∧ encode other = encode value := by
        have hmem := h.1
        rw [encodeMembers_eq_map] at hmem
        obtain ⟨⟨name', other⟩, hother, heq⟩ := List.mem_map.mp hmem
        obtain ⟨rfl, htext⟩ := Prod.mk.inj heq
        exact ⟨other, hother, htext⟩
      have hshape := wellFormed_dict.mp hform
      rw [sameMembers, lookup_eq_of_mem hshape.1 hother, Bool.and_eq_true]
      exact ⟨sameJson_of_encode value hmembers.1 other (finiteMembers_iff.mp hothers _ hother)
          (hshape.2 _ hother) htext.symm,
        sameMembers_of_encode rest hmembers.2 others hothers hform h.2⟩

end

mutual

/-- Equal JSON values have one text. -/
theorem encode_of_sameJson (v w : JsonValue) (hv : v.wellFormed) (hw : w.wellFormed)
    (h : sameJson v w) : encode v = encode w := by
  cases v with
  | null => cases w <;> first | rfl | exact absurd h (by simp [sameJson])
  | bool b =>
      cases w with
      | bool d => rw [of_decide_eq_true h]
      | _ => exact absurd h (by simp [sameJson])
  | int n =>
      cases w with
      | int m => rw [of_decide_eq_true h]
      | _ => exact absurd h (by simp [sameJson])
  | float f =>
      cases w with
      | float g => rw [of_decide_eq_true h]
      | _ => exact absurd h (by simp [sameJson])
  | str s =>
      cases w with
      | str t => rw [of_decide_eq_true h]
      | _ => exact absurd h (by simp [sameJson])
  | list items =>
      cases w with
      | list others => rw [encode, encode, encodeItems_of_same items others hv hw h]
      | _ => exact absurd h (by simp [sameJson])
  | dict members =>
      cases w with
      | dict others =>
          rw [sameJson, Bool.and_eq_true, decide_eq_true_eq] at h
          have hmembers := wellFormed_dict.mp hv
          have hnodup : ((encodeMembers members).map Prod.fst).Nodup := by
            simpa [encodeMembers_eq_map, Function.comp_def] using hmembers.1
          have hsubset := encodeMembers_of_same members others (wellFormedMembers_iff.mpr hmembers.2)
            hw h.2
          have hperm : (encodeMembers members).Perm (encodeMembers others) := by
            refine (List.subperm_of_subset (hnodup.of_map _) hsubset).perm_of_length_le ?_
            simp [encodeMembers_eq_map, h.1]
          rw [encode, encode, sortMembers_eq_of_perm hnodup hperm]
      | _ => exact absurd h (by simp [sameJson])

theorem encodeItems_of_same (items others : List JsonValue) (hitems : wellFormedItems items)
    (hothers : wellFormedItems others) (h : sameItems items others) :
    encodeItems items = encodeItems others := by
  cases items with
  | nil =>
      cases others with
      | nil => rfl
      | cons other rest => exact absurd h (by simp [sameItems])
  | cons item rest =>
      cases others with
      | nil => exact absurd h (by simp [sameItems])
      | cons other rest' =>
          rw [wellFormedItems, Bool.and_eq_true] at hitems hothers
          rw [sameItems, Bool.and_eq_true] at h
          rw [encodeItems, encodeItems, encode_of_sameJson item other hitems.1 hothers.1 h.1,
            encodeItems_of_same rest rest' hitems.2 hothers.2 h.2]

theorem encodeMembers_of_same (members others : List (String × JsonValue))
    (hmembers : wellFormedMembers members) (hothers : (dict others).wellFormed)
    (h : sameMembers members others) : encodeMembers members ⊆ encodeMembers others := by
  cases members with
  | nil => exact List.nil_subset _
  | cons member rest =>
      obtain ⟨name, value⟩ := member
      rw [wellFormedMembers, Bool.and_eq_true] at hmembers
      rw [sameMembers, Bool.and_eq_true] at h
      cases hlookup : others.lookup name with
      | none => exact absurd h.1 (by simp [hlookup])
      | some other =>
          have hother := mem_of_lookup hlookup
          have hsame : sameJson value other := by simpa [hlookup] using h.1
          have htext := encode_of_sameJson value other hmembers.1
            ((wellFormed_dict.mp hothers).2 _ hother) hsame
          rw [encodeMembers, List.cons_subset]
          refine ⟨?_, encodeMembers_of_same rest others hmembers.2 hothers h.2⟩
          rw [encodeMembers_eq_map, htext]
          exact List.mem_map_of_mem (f := fun m : String × JsonValue => (m.1, encode m.2)) hother

end

/-- The canonical text is a complete invariant of JSON equality. -/
theorem encode_eq_iff {v w : JsonValue} (hv : v.finite) (hw : w.finite) (hform : v.wellFormed)
    (hform' : w.wellFormed) : encode v = encode w ↔ sameJson v w :=
  ⟨sameJson_of_encode v hv w hw hform', encode_of_sameJson v w hform hform'⟩

/-! ### Python equality is coarser -/

omit [FloatRepr]

theorem Number.same_self (n : Number) : n.same n := by
  cases n <;> simp [Number.same]

theorem numberEq_self {v : JsonValue} {n : Number} (h : v.number? = some n) : numberEq v v := by
  rw [numberEq, h]
  exact n.same_self

mutual

theorem pyEq_of_sameJson (v : JsonValue) (hv : v.finite) (w : JsonValue) (h : sameJson v w) :
    pyEq v w := by
  cases v with
  | null => cases w <;> first | rfl | exact absurd h (by simp [sameJson])
  | bool b =>
      cases w with
      | bool d =>
          obtain rfl : b = d := of_decide_eq_true h
          exact numberEq_self (v := .bool b) (n := .exact (if b then 1 else 0) 0) rfl
      | _ => exact absurd h (by simp [sameJson])
  | int n =>
      cases w with
      | int m =>
          obtain rfl : n = m := of_decide_eq_true h
          exact numberEq_self (v := .int n) (n := .exact n 0) rfl
      | _ => exact absurd h (by simp [sameJson])
  | float f =>
      cases w with
      | float g =>
          obtain rfl : f = g := of_decide_eq_true h
          exact numberEq_self (n := .exact f.mantissa f.exponent) (if_pos hv)
      | _ => exact absurd h (by simp [sameJson])
  | str s =>
      cases w with
      | str t => exact h
      | _ => exact absurd h (by simp [sameJson])
  | list items =>
      cases w with
      | list others => exact pyEqItems_of_same items hv others h
      | _ => exact absurd h (by simp [sameJson])
  | dict members =>
      cases w with
      | dict others =>
          rw [sameJson, Bool.and_eq_true] at h
          rw [pyEq, Bool.and_eq_true]
          exact ⟨h.1, pyEqMembers_of_same members hv others h.2⟩
      | _ => exact absurd h (by simp [sameJson])

theorem pyEqItems_of_same (items : List JsonValue) (hitems : finiteItems items)
    (others : List JsonValue) (h : sameItems items others) : pyEqItems items others := by
  cases items with
  | nil => exact h
  | cons item rest =>
      cases others with
      | nil => exact absurd h (by simp [sameItems])
      | cons other rest' =>
          rw [finiteItems, Bool.and_eq_true] at hitems
          rw [sameItems, Bool.and_eq_true] at h
          rw [pyEqItems, Bool.and_eq_true]
          exact ⟨pyEq_of_sameJson item hitems.1 other h.1,
            pyEqItems_of_same rest hitems.2 rest' h.2⟩

theorem pyEqMembers_of_same (members : List (String × JsonValue)) (hmembers : finiteMembers members)
    (others : List (String × JsonValue)) (h : sameMembers members others) :
    pyEqMembers members others := by
  cases members with
  | nil => rfl
  | cons member rest =>
      obtain ⟨name, value⟩ := member
      rw [finiteMembers, Bool.and_eq_true] at hmembers
      rw [sameMembers, Bool.and_eq_true] at h
      rw [pyEqMembers, Bool.and_eq_true]
      refine ⟨?_, pyEqMembers_of_same rest hmembers.2 others h.2⟩
      cases hlookup : others.lookup name with
      | none => exact absurd h.1 (by simp [hlookup])
      | some other =>
          have hsame : sameJson value other := by simpa [hlookup] using h.1
          exact pyEq_of_sameJson value hmembers.1 other hsame

end

theorem sameItems_self {items : List JsonValue} (h : ∀ item ∈ items, sameJson item item) :
    sameItems items items := by
  induction items with
  | nil => rfl
  | cons item rest ih =>
      rw [List.forall_mem_cons] at h
      rw [sameItems, h.1, ih h.2, Bool.and_self]

theorem sameMembers_of_lookup {members others : List (String × JsonValue)}
    (hlookup : ∀ member ∈ members, others.lookup member.1 = some member.2)
    (hsame : ∀ member ∈ members, sameJson member.2 member.2) : sameMembers members others := by
  induction members with
  | nil => rfl
  | cons member rest ih =>
      rw [List.forall_mem_cons] at hlookup hsame
      rw [sameMembers, hlookup.1, ih hlookup.2 hsame.2, Bool.and_true]
      exact hsame.1

theorem sameJson_self (v : JsonValue) (hform : v.wellFormed) : sameJson v v := by
  induction v using JsonValue.induction with
  | null => rfl
  | bool b => exact decide_eq_true rfl
  | int n => exact decide_eq_true rfl
  | float f => exact decide_eq_true rfl
  | str s => exact decide_eq_true rfl
  | list items ih =>
      rw [wellFormed, wellFormedItems_iff] at hform
      exact sameItems_self fun item hitem => ih item hitem (hform item hitem)
  | dict members ih =>
      obtain ⟨hnodup, hmembers⟩ := wellFormed_dict.mp hform
      rw [sameJson, decide_eq_true rfl, Bool.true_and]
      exact sameMembers_of_lookup (fun member hmember => lookup_eq_of_mem hnodup hmember)
        fun member hmember => ih member hmember (hmembers member hmember)

/-- A value without a NaN equals itself. -/
theorem pyEq_self {v : JsonValue} (hv : v.finite) (hform : v.wellFormed) : pyEq v v :=
  pyEq_of_sameJson v hv v (sameJson_self v hform)

end JsonValue

theorem JsonObject.wellFormed_of_get? {o : JsonObject} {name : String} {value : JsonValue}
    (h : o.get? name = some value) : value.wellFormed :=
  (JsonValue.wellFormed_dict.mp o.wellFormed).2 _ (JsonValue.mem_of_lookup h)

end Base
