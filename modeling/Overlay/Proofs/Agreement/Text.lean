import Overlay.Agreement.Basic
import Overlay.Proofs.Text.Hexadecimal
import Overlay.Proofs.Text.Slice

/-!
# The written form of a name

A text is read as the name of an agreement exactly if it is 64 characters, each of them a hexadecimal digit in either
case or, in the first place of its pair, a plus sign (`AgreementId.Spells`).  The name that is read is the one whose
written form has the same digits, in lower case and with a zero for each plus sign.  So the texts without a plus sign
that are read are the texts of 64 hexadecimal digits; any other text is refused, and the error holds it
(`parse_exact`).

The reader takes the characters of a text two by two.  The octets of a text can be counted and cut into pairs instead
(`AgreementId.scan`), which fails where a cut falls inside a character.  That never happens, because only ASCII texts
are cut, and both come to the same result (`scan_eq`).
-/

namespace Overlay.AgreementId

open Text

variable {a b c : Char} {x : UInt8} {bytes : Bytes} {cs : List Char} {s : String} {id : AgreementId}

/-! ### Pairs of characters -/

/-- The value of the first character of a pair, where a plus sign counts for nothing. -/
def leadValue? (c : Char) : Option Nat := if c = '+' then some 0 else digitValue? c

/-- A digit in lower case, with a zero for a plus sign. -/
def plain (c : Char) : Char := if c = '+' then '0' else c.toLower

theorem leadValue?_isSome : (a.isHexDigit = true ∨ a = '+') ↔ ∃ d, leadValue? a = some d := by
  unfold leadValue?
  split
  · rename_i ha
    exact ⟨fun _ => ⟨0, rfl⟩, fun _ => .inr ha⟩
  · rename_i ha
    rw [← isHexDigit_iff]
    exact ⟨fun h => h.resolve_right ha, .inl⟩

theorem plain_of_digitValue? {d : Nat} (h : digitValue? c = some d) : d < 16 ∧ hexDigit d = plain c := by
  have hplus : c ≠ '+' := by
    rintro rfl
    cases h
  rw [plain, if_neg hplus]
  exact lower_of_digitValue? h

theorem plain_of_leadValue? {d : Nat} (h : leadValue? c = some d) : d < 16 ∧ hexDigit d = plain c := by
  unfold leadValue? at h
  split at h
  · rename_i hc
    cases h
    rw [plain, if_pos hc]
    exact ⟨by decide, rfl⟩
  · exact plain_of_digitValue? h

theorem octet?_values : octet? a b = some x ↔
    ∃ d e, leadValue? a = some d ∧ digitValue? b = some e ∧ x = UInt8.ofNat (16 * d + e) := by
  unfold octet? leadValue?
  split
  · rw [Option.map_eq_some_iff]
    constructor
    · rintro ⟨e, he, rfl⟩
      exact ⟨0, e, rfl, he, by rw [Nat.mul_zero, Nat.zero_add]⟩
    · rintro ⟨d, e, hd, he, rfl⟩
      cases hd
      exact ⟨e, he, by rw [Nat.mul_zero, Nat.zero_add]⟩
  · constructor
    · intro h
      obtain ⟨d, hd, h⟩ := Option.bind_eq_some_iff.1 h
      obtain ⟨e, he, h⟩ := Option.bind_eq_some_iff.1 h
      cases h
      exact ⟨d, e, hd, he, rfl⟩
    · rintro ⟨d, e, hd, he, rfl⟩
      rw [hd, he]
      rfl

/-- A pair of characters spells an octet exactly if it is two digits, or a plus sign and a digit, and the octet is
the one with these digits. -/
theorem octet?_eq_some : octet? a b = some x ↔
    (a.isHexDigit = true ∨ a = '+') ∧ b.isHexDigit = true ∧ spelling x = [plain a, plain b] := by
  rw [octet?_values]
  constructor
  · rintro ⟨d, e, hd, he, rfl⟩
    obtain ⟨hlead, hplain⟩ := plain_of_leadValue? hd
    obtain ⟨hdigit, hplain'⟩ := plain_of_digitValue? he
    exact ⟨leadValue?_isSome.2 ⟨d, hd⟩, isHexDigit_iff.2 ⟨e, he⟩, by rw [spelling_ofNat hlead hdigit, hplain, hplain']⟩
  · rintro ⟨ha, hb, hx⟩
    obtain ⟨d, hd⟩ := leadValue?_isSome.1 ha
    obtain ⟨e, he⟩ := isHexDigit_iff.1 hb
    obtain ⟨hlead, hplain⟩ := plain_of_leadValue? hd
    obtain ⟨hdigit, hplain'⟩ := plain_of_digitValue? he
    refine ⟨d, e, hd, he, spelling_injective ?_⟩
    rw [hx, spelling_ofNat hlead hdigit, hplain, hplain']

/-! ### Characters two by two -/

/-- Each character is a digit, or a plus sign in an even place, and the last place is an odd one. -/
def Paired (cs : List Char) : Prop :=
  cs.length % 2 = 0 ∧ ∀ (i : Nat) (c : Char), cs[i]? = some c → c.isHexDigit = true ∨ i % 2 = 0 ∧ c = '+'

theorem paired_nil : Paired [] := ⟨rfl, nofun⟩

theorem paired_cons : Paired (a :: b :: cs) ↔
    (a.isHexDigit = true ∨ a = '+') ∧ b.isHexDigit = true ∧ Paired cs := by
  constructor
  · rintro ⟨hlength, hcs⟩
    refine ⟨(hcs 0 a rfl).imp_right And.right, (hcs 1 b rfl).resolve_right (by simp), ?_, ?_⟩
    · simp only [List.length_cons] at hlength
      omega
    · intro i c hc
      have hplace := hcs (i + 2) c hc
      rwa [Nat.add_mod_right] at hplace
  · rintro ⟨ha, hb, hlength, hcs⟩
    refine ⟨?_, ?_⟩
    · simp only [List.length_cons]
      omega
    · intro i c hc
      match i with
      | 0 =>
        cases hc
        exact ha.imp_right fun h => ⟨rfl, h⟩
      | 1 =>
        cases hc
        exact .inl hb
      | i + 2 =>
        rw [Nat.add_mod_right]
        exact hcs i c hc

/-- Characters spell octets exactly if they are paired, and the octets have the same digits. -/
theorem octets?_eq_some : octets? cs = some bytes ↔ Paired cs ∧ bytes.flatMap spelling = cs.map plain := by
  induction cs using octets?.induct generalizing bytes with
  | case1 =>
    rw [octets?, Option.some.injEq]
    constructor
    · rintro rfl
      exact ⟨paired_nil, rfl⟩
    · rintro ⟨-, h⟩
      cases bytes with
      | nil => rfl
      | cons x bytes => cases h
  | case2 c =>
    rw [octets?]
    exact ⟨nofun, fun h => absurd h.1.1 (by simp)⟩
  | case3 a b cs ih =>
    rw [paired_cons]
    constructor
    · intro h
      obtain ⟨x, hx, h⟩ := Option.bind_eq_some_iff.1 h
      obtain ⟨rest, hrest, h⟩ := Option.bind_eq_some_iff.1 h
      cases h
      obtain ⟨ha, hb, hspelling⟩ := octet?_eq_some.1 hx
      obtain ⟨hpaired, hplain⟩ := ih.1 hrest
      refine ⟨⟨ha, hb, hpaired⟩, ?_⟩
      rw [List.flatMap_cons, hspelling, hplain]
      rfl
    · rintro ⟨⟨ha, hb, hpaired⟩, hplain⟩
      cases bytes with
      | nil => cases hplain
      | cons x rest =>
        have hsplit : spelling x ++ rest.flatMap spelling = [plain a, plain b] ++ cs.map plain := hplain
        obtain ⟨hspelling, hrest⟩ := List.append_inj hsplit rfl
        rw [octets?, octet?_eq_some.2 ⟨ha, hb, hspelling⟩, ih.2 ⟨hpaired, hrest⟩]
        rfl

theorem exists_octets? (h : Paired cs) : ∃ bytes, octets? cs = some bytes := by
  induction cs using octets?.induct with
  | case1 => exact ⟨[], rfl⟩
  | case2 c => exact absurd h.1 (by simp)
  | case3 a b cs ih =>
    obtain ⟨ha, hb, hcs⟩ := paired_cons.1 h
    obtain ⟨d, hd⟩ := leadValue?_isSome.1 ha
    obtain ⟨e, he⟩ := isHexDigit_iff.1 hb
    obtain ⟨rest, hrest⟩ := ih hcs
    rw [octets?, octet?_values.2 ⟨d, e, hd, he, rfl⟩, hrest]
    exact ⟨_, rfl⟩

theorem octets?_flatMap_spelling (bytes : Bytes) : octets? (bytes.flatMap spelling) = some bytes := by
  induction bytes with
  | nil => rfl
  | cons x bytes ih =>
    have hx := x.toNat_lt
    have hhigh := digitValue?_hexDigit (d := x.toNat / 16) (by omega)
    have hlow := digitValue?_hexDigit (d := x.toNat % 16) (by omega)
    have hspelling : spelling x = [plain (hexDigit (x.toNat / 16)), plain (hexDigit (x.toNat % 16))] := by
      rw [← (plain_of_digitValue? hhigh).2, ← (plain_of_digitValue? hlow).2]
      rfl
    have hpair := octet?_eq_some.2 ⟨.inl (isHexDigit_iff.2 ⟨_, hhigh⟩), isHexDigit_iff.2 ⟨_, hlow⟩, hspelling⟩
    rw [List.flatMap_cons, spelling, List.cons_append, List.cons_append, List.nil_append, octets?, hpair, ih]
    rfl

/-! ### Texts -/

/-- A text spells a name: 64 characters, each of them a hexadecimal digit, or a plus sign in an even place. -/
def Spells (s : String) : Prop :=
  s.length = 64 ∧ ∀ (i : Nat) (c : Char), s.toList[i]? = some c → c.isHexDigit = true ∨ i % 2 = 0 ∧ c = '+'

/-- A text is 64 hexadecimal digits, in either case. -/
def IsHexadecimal (s : String) : Prop := s.length = 64 ∧ ∀ c ∈ s.toList, c.isHexDigit = true

theorem spells_iff : Spells s ↔ s.toList.length = 64 ∧ Paired s.toList := by
  rw [Spells, Paired, String.length_toList]
  constructor
  · rintro ⟨hlength, hs⟩
    exact ⟨hlength, by rw [hlength], hs⟩
  · rintro ⟨hlength, -, hs⟩
    exact ⟨hlength, hs⟩

/-- The texts of hexadecimal digits are the ones that spell a name without a plus sign. -/
theorem isHexadecimal_iff : IsHexadecimal s ↔ Spells s ∧ '+' ∉ s.toList := by
  constructor
  · rintro ⟨hlength, hs⟩
    refine ⟨⟨hlength, fun i c hc => .inl (hs c (List.mem_of_getElem? hc))⟩, ?_⟩
    intro hplus
    exact absurd (hs '+' hplus) (by decide)
  · rintro ⟨⟨hlength, hs⟩, hplus⟩
    refine ⟨hlength, ?_⟩
    intro c hc
    obtain ⟨i, hi⟩ := List.getElem?_of_mem hc
    refine (hs i c hi).resolve_right ?_
    rintro ⟨-, rfl⟩
    exact hplus hc

theorem toList_text (id : AgreementId) : id.text.toList = id.toBytes.flatMap spelling := by
  rw [text, hex_eq, String.toList_ofList]

theorem length_toBytes (id : AgreementId) : id.toBytes.length = 32 := id.block.length_toBytes

theorem ofText?_eq_some : ofText? s = some id ↔ octets? s.toList = some id.toBytes := by
  constructor
  · intro h
    obtain ⟨bytes, hbytes, h⟩ := Option.bind_eq_some_iff.1 h
    obtain ⟨block, hblock, h⟩ := Option.bind_eq_some_iff.1 h
    cases h
    rw [hbytes, Block.ofBytes?_eq_some.1 hblock]
    rfl
  · intro h
    rw [ofText?, h]
    simp only [toBytes, bind, Option.bind, Block.ofBytes?_toBytes]
    rfl

theorem ofText?_spells : ofText? s = some id ↔ Spells s ∧ id.text = s.map plain := by
  have htext : id.text = s.map plain ↔ id.toBytes.flatMap spelling = s.toList.map plain := by
    rw [← String.toList_inj, toList_text, String.toList_map]
  rw [ofText?_eq_some, octets?_eq_some, spells_iff, htext]
  constructor
  · rintro ⟨hpaired, hplain⟩
    refine ⟨⟨?_, hpaired⟩, hplain⟩
    have hlength := congrArg List.length hplain
    rw [length_flatMap_spelling, length_toBytes, List.length_map] at hlength
    exact hlength.symm
  · rintro ⟨⟨-, hpaired⟩, hplain⟩
    exact ⟨hpaired, hplain⟩

theorem exists_ofText? (h : Spells s) : ∃ id, ofText? s = some id := by
  obtain ⟨hlength, hpaired⟩ := spells_iff.1 h
  obtain ⟨bytes, hbytes⟩ := exists_octets? hpaired
  have hcount := congrArg List.length (octets?_eq_some.1 hbytes).2
  rw [length_flatMap_spelling, List.length_map, hlength] at hcount
  refine ⟨⟨.ofBytes bytes (by omega)⟩, ofText?_eq_some.2 ?_⟩
  rw [hbytes, toBytes, Block.toBytes_ofBytes]

theorem ofText?_text (id : AgreementId) : ofText? id.text = some id := by
  rw [ofText?_eq_some, toList_text, octets?_flatMap_spelling]

theorem parse_ok : parse s = .ok id ↔ ofText? s = some id := by
  unfold parse
  cases ofText? s with
  | none => exact ⟨nofun, nofun⟩
  | some id' =>
    constructor <;>
    · intro h
      cases h
      rfl

theorem parse_error {e : ArmError} :
    parse s = .error e ↔ ¬ Spells s ∧ e = .invalidArgument (.agreementIdText s) := by
  cases hs : ofText? s with
  | none =>
    have hspells : ¬ Spells s := by
      intro h
      obtain ⟨id, hid⟩ := exists_ofText? h
      rw [hs] at hid
      cases hid
    rw [parse, hs]
    constructor
    · intro h
      cases h
      exact ⟨hspells, rfl⟩
    · rintro ⟨-, rfl⟩
      rfl
  | some id =>
    rw [parse_ok.2 hs]
    exact ⟨nofun, fun h => absurd (ofText?_spells.1 hs).1 h.1⟩

/-! ### Cut by cut -/

/-- The number below 256 that a numeral in base 16 denotes: one or more digits, in either case, behind an optional plus
sign. -/
def numeral? (s : String) : Option UInt8 :=
  let digits := if s.toList.head? = some '+' then s.toList.tail else s.toList
  if digits = [] then none
  else
    (digits.mapM digitValue?).bind fun values =>
      let n := values.foldl (fun n d => 16 * n + d) 0
      if n < 256 then some (UInt8.ofNat n) else none

/-- The `n` octets that the pairs of a text from the octet `i` on denote: no result where a cut falls inside a character,
and `some none` where a pair is not a numeral. -/
def scanPairs (s : String) : Nat → Nat → Option (Option Bytes)
  | 0, _ => some (some [])
  | n + 1, i =>
    match slice? s i (i + 2) with
    | none => none
    | some pair =>
      match numeral? pair with
      | none => some none
      | some x => (scanPairs s n (i + 2)).map (Option.map (x :: ·))

/-- The octets of a name, read from the octets of a text: they must be 64, of ASCII characters only, and then they are
cut into pairs from front to back.  There is no result where a cut falls inside a character. -/
def scan (s : String) : Option (Except ArmError Bytes) :=
  if s.utf8ByteSize ≠ 64 ∨ ¬ IsAscii s then some (.error (.invalidArgument (.agreementIdText s)))
  else
    match scanPairs s 32 0 with
    | none => none
    | some none => some (.error (.invalidArgument (.agreementIdText s)))
    | some (some bytes) => some (.ok bytes)

theorem numeral?_pair (a b : Char) : numeral? (String.ofList [a, b]) = octet? a b := by
  unfold numeral? octet?
  rw [String.toList_ofList]
  simp only [List.head?_cons, Option.some.injEq, List.tail_cons]
  split
  · rw [if_neg (List.cons_ne_nil b [])]
    cases he : digitValue? b with
    | none => simp [he]
    | some e =>
      have hfits : e < 256 := Nat.lt_trans (lower_of_digitValue? he).1 (by decide)
      simp [he, hfits]
  · rw [if_neg (List.cons_ne_nil a [b])]
    cases hd : digitValue? a with
    | none => simp [hd]
    | some d =>
      cases he : digitValue? b with
      | none => simp [hd, he]
      | some e =>
        have hd' := (lower_of_digitValue? hd).1
        have he' := (lower_of_digitValue? he).1
        have hfits : 16 * d + e < 256 := by omega
        simp [hd, he, hfits]

/-- In an ASCII text every pair is cut out, and the characters spell what the pairs denote. -/
theorem scanPairs_eq {u v : List Char} {n : Nat} (hs : IsAscii (String.ofList (u ++ v))) (hv : v.length = 2 * n) :
    scanPairs (String.ofList (u ++ v)) n u.length = some (octets? v) := by
  induction n generalizing u v with
  | zero =>
    obtain rfl := List.eq_nil_of_length_eq_zero hv
    rfl
  | succ n ih =>
    match v with
    | a :: b :: v =>
      have hsplit : u ++ a :: b :: v = u ++ [a, b] ++ v := by rw [List.append_assoc]; rfl
      rw [hsplit] at hs ⊢
      have hrest : scanPairs (String.ofList (u ++ [a, b] ++ v)) n (u.length + 2) = some (octets? v) := by
        have hahead := ih hs (by simp only [List.length_cons] at hv; omega)
        rwa [List.length_append] at hahead
      have hpair : slice? (String.ofList (u ++ [a, b] ++ v)) u.length (u.length + 2) = some (String.ofList [a, b]) :=
        slice?_of_ascii hs
      rw [scanPairs, hpair]
      simp only [numeral?_pair, octets?]
      cases octet? a b with
      | none => rfl
      | some x =>
        simp only
        rw [hrest]
        cases octets? v <;> rfl

theorem isAscii_of_spells (h : Spells s) : IsAscii s := by
  intro c hc
  obtain ⟨i, hi⟩ := List.getElem?_of_mem hc
  rcases h.2 i c hi with hdigit | ⟨-, rfl⟩
  · obtain ⟨d, hd⟩ := isHexDigit_iff.1 hdigit
    exact toNat_of_digitValue? hd
  · decide

/-- No cut falls inside a character, and both ways of reading come to the same result. -/
theorem scan_eq (s : String) : scan s = some ((parse s).map toBytes) := by
  unfold scan
  split
  · rename_i hrefused
    have hspells : ¬ Spells s := by
      intro h
      have hascii := isAscii_of_spells h
      rcases hrefused with hsize | hnot
      · exact hsize ((utf8ByteSize_of_ascii hascii).trans (spells_iff.1 h).1)
      · exact hnot hascii
    rw [parse_error.2 ⟨hspells, rfl⟩]
    rfl
  · rename_i haccepted
    obtain ⟨hsize, hascii⟩ := not_or.1 haccepted
    rw [Decidable.not_not] at hsize hascii
    rw [utf8ByteSize_of_ascii hascii] at hsize
    have hpairs : scanPairs s 32 0 = some (octets? s.toList) := by
      have hcuts : IsAscii (String.ofList ([] ++ s.toList)) := by rwa [List.nil_append, String.ofList_toList]
      have hall := scanPairs_eq (n := 32) hcuts hsize
      rwa [List.nil_append, String.ofList_toList] at hall
    rw [hpairs]
    cases hoctets : octets? s.toList with
    | none =>
      have hspells : ¬ Spells s := by
        intro h
        obtain ⟨bytes, hbytes⟩ := exists_octets? (spells_iff.1 h).2
        rw [hoctets] at hbytes
        cases hbytes
      rw [parse_error.2 ⟨hspells, rfl⟩]
      rfl
    | some bytes =>
      obtain ⟨id, hid⟩ := exists_ofText? (spells_iff.2 ⟨hsize, (octets?_eq_some.1 hoctets).1⟩)
      rw [parse_ok.2 hid]
      rw [ofText?_eq_some, hoctets, Option.some.injEq] at hid
      rw [hid]
      rfl

theorem parse_accepts : (∃ id, parse s = .ok id) ↔ Spells s := by
  constructor
  · rintro ⟨id, hid⟩
    exact (ofText?_spells.1 (parse_ok.1 hid)).1
  · intro h
    obtain ⟨id, hid⟩ := exists_ofText? h
    exact ⟨id, parse_ok.2 hid⟩

theorem text_of_isHexadecimal (hs : IsHexadecimal s) (h : parse s = .ok id) : id.text = s.toLower := by
  have hlower : s.toLower = s.map Char.toLower := rfl
  rw [(ofText?_spells.1 (parse_ok.1 h)).2, hlower, ← String.toList_inj, String.toList_map, String.toList_map]
  apply List.map_congr_left
  intro c hc
  rw [plain, if_neg]
  rintro rfl
  exact (isHexadecimal_iff.1 hs).2 hc

/-- **A text is read as a name exactly if it spells one.**  The written form of a name is read back.  A text that spells
a name is read as the name with the same digits; every other text is refused, with an error that holds it.  What is
64 hexadecimal digits, in either case, is read and written again in lower case.  That these are the texts that are read
is true of every text but the ones that spell a name with a plus sign.  No text is cut inside a character. -/
theorem parse_exact (id : AgreementId) (s : String) :
    parse id.text = .ok id ∧
      (parse s = .ok id ↔ Spells s ∧ id.text = s.map plain) ∧
      (∀ e, parse s = .error e ↔ ¬ Spells s ∧ e = .invalidArgument (.agreementIdText s)) ∧
      (IsHexadecimal s ↔ Spells s ∧ '+' ∉ s.toList) ∧
      (((∃ id', parse s = .ok id') ↔ IsHexadecimal s) ↔ (Spells s → '+' ∉ s.toList)) ∧
      (IsHexadecimal s → ∃ id', parse s = .ok id' ∧ id'.text = s.toLower) ∧
      scan s = some ((parse s).map toBytes) := by
  refine ⟨parse_ok.2 (ofText?_text id), ?_, fun e => parse_error, isHexadecimal_iff, ?_, ?_, scan_eq s⟩
  · rw [parse_ok, ofText?_spells]
  · rw [parse_accepts, isHexadecimal_iff]
    exact iff_self_and
  · intro hs
    obtain ⟨id', hid⟩ := parse_accepts.2 (isHexadecimal_iff.1 hs).1
    exact ⟨id', hid, text_of_isHexadecimal hs hid⟩

def signs : List Char := (List.replicate 32 ['+', '0']).flatten

def capitals : List Char := (List.replicate 32 ['A', 'B']).flatten

theorem isHexadecimal_capitals : IsHexadecimal (String.ofList capitals) := by
  refine ⟨String.length_ofList, ?_⟩
  rw [String.toList_ofList]
  intro c hc
  obtain ⟨digits, hdigits, hc⟩ := List.mem_flatten.1 hc
  obtain rfl := List.eq_of_mem_replicate hdigits
  rcases List.mem_cons.1 hc with rfl | hc
  · rfl
  · obtain rfl := List.mem_singleton.1 hc
    rfl

/-- Plus signs are read as zeros, though they are no digits, and capitals as the digits that they are. -/
theorem parse_exact_signs :
    (parse (String.ofList signs) = .ok ⟨Block.filled 32 0⟩ ∧ ¬ IsHexadecimal (String.ofList signs) ∧
      scan (String.ofList signs) = some (.ok (List.replicate 32 0))) ∧
      IsHexadecimal (String.ofList capitals) ∧
      ∃ id, parse (String.ofList capitals) = .ok id ∧ id.text = (String.ofList capitals).toLower := by
  have hread : parse (String.ofList signs) = .ok ⟨Block.filled 32 0⟩ := by
    have hoctets : octets? signs = some (List.replicate 32 0) := by decide
    rw [parse_ok, ofText?_eq_some, String.toList_ofList, hoctets, toBytes, Block.filled, Block.toBytes_ofBytes]
  have hplus : '+' ∈ (String.ofList signs).toList := by
    rw [String.toList_ofList]
    decide
  obtain ⟨-, -, -, hdigits, -, -, hscan⟩ := parse_exact ⟨Block.filled 32 0⟩ (String.ofList signs)
  obtain ⟨-, -, -, -, -, hlower, -⟩ := parse_exact ⟨Block.filled 32 0⟩ (String.ofList capitals)
  refine ⟨⟨hread, fun h => (hdigits.1 h).2 hplus, ?_⟩, isHexadecimal_capitals, hlower isHexadecimal_capitals⟩
  rw [hscan, hread, Except.map, toBytes, Block.filled, Block.toBytes_ofBytes]

end Overlay.AgreementId
