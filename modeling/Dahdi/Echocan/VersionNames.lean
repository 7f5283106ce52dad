import Dahdi.Library.CString

/-!
The names of the echo cancellers that DAHDI_GETVERSION reports, in an array of 80 characters.
An array that is written past its end gets longer.
-/
namespace VersionNames
open CString

abbrev nul : Char := '\x00'

def versionSize : Nat := 80
def echoCancellerSize : Nat := 80
def efault : Int := -14

/-- A string as C has it. -/
structure Name where
  text : List Char
  clear : nul ∉ text
  length : text.length < 2 ^ 64

/-- A registered factory: the name it gives, and whether that is hwec_def_name itself. -/
structure Ecfactory where
  name : Name
  isDefName : Bool

structure VersionInfo where
  version : List Char
  echoCanceller : List Char

section Code

def separator : List Char := [',', ' ']

/-- dahdi_any_hwec_available; a span is given by what its channels say. -/
def anyHwecAvailable (spans : List (List Bool)) : Bool := spans.any fun chans => chans.any id

/-- The hardware canceller is not reported when no channel has one. -/
def Hidden (haveHwec : Bool) (cur : Ecfactory) : Prop := cur.isDefName ∧ haveHwec = false

instance (haveHwec : Bool) (cur : Ecfactory) : Decidable (Hidden haveHwec cur) :=
  inferInstanceAs (Decidable (_ ∧ _))

/-- The rest of the list of factories, with the array and the space counted to be left. -/
def listNames (haveHwec : Bool) : List Ecfactory → List Char → BitVec 64 → List Char
  | [], buf, _ => buf
  | cur :: rest, buf, space =>
    if Hidden haveHwec cur then listNames haveHwec rest buf space
    else
      let buf := strncat nul buf cur.name.text space.toNat
      let space := space - BitVec.ofNat 64 cur.name.text.length
      if space < 1 then buf
      else if rest ≠ [] then
        let buf := strncat nul buf separator space.toNat
        let space := space - 2
        if space < 1 then buf else listNames haveHwec rest buf space
      else listNames haveHwec rest buf space

/-- dahdi_ioctl_get_version -/
def getVersion (dahdiVersion : List Char) (spans : List (List Bool)) (ecfactoryList : List Ecfactory)
    (copied : Bool) : VersionInfo × Int :=
  let zeros := List.replicate echoCancellerSize nul
  let vi : VersionInfo :=
    ⟨strlcpy nul (List.replicate versionSize nul) 0 dahdiVersion versionSize,
      listNames (anyHwecAvailable spans) ecfactoryList zeros (BitVec.ofNat 64 (echoCancellerSize - 1))⟩
  (vi, if copied then 0 else efault)

end Code

section Pieces

/-- The names to report. -/
def reported (haveHwec : Bool) (list : List Ecfactory) : List (List Char) :=
  (list.filter fun cur => ¬ Hidden haveHwec cur).map fun cur => cur.name.text

/-- What is appended: the names, and a separator after each but the last of the list. -/
def pieces (haveHwec : Bool) : List Ecfactory → List (List Char)
  | [] => []
  | cur :: rest =>
    if Hidden haveHwec cur then pieces haveHwec rest
    else cur.name.text :: (if rest ≠ [] then separator :: pieces haveHwec rest else pieces haveHwec rest)

/-- The piece that goes past so many characters, if there is one, is followed by nothing. Pieces
    that come to just as many are the last to be appended. -/
def Fits (room : Nat) (ps : List (List Char)) : Prop :=
  ∀ before p after, ps = before ++ p :: after → before.flatten.length < room →
    room < (before ++ [p]).flatten.length → ∀ q ∈ after, q = []

/-- The list ends with a hidden name, after others that are reported. -/
def Trailing (haveHwec : Bool) (list : List Ecfactory) : Prop :=
  (∃ cur ∈ list.getLast?, Hidden haveHwec cur) ∧ reported haveHwec list ≠ []

def joined (haveHwec : Bool) (list : List Ecfactory) : List Char :=
  separator.intercalate (reported haveHwec list)

def append : List (List Char) → List Char → BitVec 64 → List Char
  | [], buf, _ => buf
  | p :: ps, buf, space =>
    let space' := space - BitVec.ofNat 64 p.length
    if space' < 1 then strncat nul buf p space.toNat else append ps (strncat nul buf p space.toNat) space'

theorem listNames_append (haveHwec : Bool) (list : List Ecfactory) (buf : List Char) (space : BitVec 64) :
    listNames haveHwec list buf space = append (pieces haveHwec list) buf space := by
  induction list generalizing buf space with
  | nil => rfl
  | cons cur rest ih =>
    rw [listNames, pieces]
    split
    case isTrue => exact ih buf space
    case isFalse =>
      rw [append]
      dsimp only
      split
      case isTrue => rfl
      case isFalse =>
        split
        case isTrue =>
          rw [append, ih]
          rfl
        case isFalse => exact ih _ _

variable {haveHwec : Bool} {cur : Ecfactory} {rest : List Ecfactory}

theorem reported_hidden (hidden : Hidden haveHwec cur) :
    reported haveHwec (cur :: rest) = reported haveHwec rest := by
  rw [reported, List.filter_cons_of_neg (by simp [hidden])]
  rfl

theorem reported_shown (shown : ¬ Hidden haveHwec cur) :
    reported haveHwec (cur :: rest) = cur.name.text :: reported haveHwec rest := by
  rw [reported, List.filter_cons_of_pos (by simp [shown])]
  rfl

theorem pieces_none (list : List Ecfactory) (none_ : reported haveHwec list = []) :
    pieces haveHwec list = [] := by
  induction list with
  | nil => rfl
  | cons cur rest ih =>
    by_cases hidden : Hidden haveHwec cur
    · rw [reported_hidden hidden] at none_
      rw [pieces, if_pos hidden, ih none_]
    · rw [reported_shown hidden] at none_
      cases none_

theorem last_hidden (list : List Ecfactory) (some_ : list ≠ []) (none_ : reported haveHwec list = []) :
    ∃ cur ∈ list.getLast?, Hidden haveHwec cur := by
  refine ⟨list.getLast some_, List.getLast?_eq_some_getLast some_, ?_⟩
  by_contra shown
  have member : (list.getLast some_).name.text ∈ reported haveHwec list :=
    List.mem_map_of_mem (List.mem_filter.mpr ⟨List.getLast_mem some_, by simp [shown]⟩)
  rw [none_] at member
  cases member

theorem last_cons (cur : Ecfactory) (some_ : rest ≠ []) : (cur :: rest).getLast? = rest.getLast? := by
  obtain ⟨next, later, rfl⟩ := List.exists_cons_of_ne_nil some_
  exact List.getLast?_cons_cons

theorem pieces_more (shown : ¬ Hidden haveHwec cur) (some_ : rest ≠ []) :
    (pieces haveHwec (cur :: rest)).flatten =
      cur.name.text ++ (separator ++ (pieces haveHwec rest).flatten) := by
  rw [pieces, if_neg shown, if_pos some_, List.flatten_cons, List.flatten_cons]

/-- The pieces are the names with separators between them, and one more where the list ends with
    a hidden name. -/
theorem pieces_joined (list : List Ecfactory) :
    (Trailing haveHwec list → (pieces haveHwec list).flatten = joined haveHwec list ++ separator) ∧
      (¬ Trailing haveHwec list → (pieces haveHwec list).flatten = joined haveHwec list) := by
  induction list with
  | nil => exact ⟨fun trailing => absurd rfl trailing.2, fun _ => rfl⟩
  | cons cur rest ih =>
    by_cases hidden : Hidden haveHwec cur
    · have same : Trailing haveHwec (cur :: rest) ↔ Trailing haveHwec rest := by
        rw [Trailing, Trailing, reported_hidden hidden]
        refine and_congr_left fun more => ?_
        have some_ : rest ≠ [] := fun empty => more (by rw [empty]; rfl)
        rw [last_cons cur some_]
      rw [same, pieces, if_pos hidden, joined, reported_hidden hidden]
      exact ih
    · by_cases some_ : rest = []
      · rw [some_, pieces, if_neg hidden, joined, reported_shown hidden]
        have shown : ¬ Trailing haveHwec [cur] := by
          rintro ⟨⟨last, found, ends⟩, _⟩
          cases found
          exact hidden ends
        exact ⟨fun trailing => absurd trailing shown, fun _ => by simp [pieces, reported]⟩
      · rw [pieces_more hidden some_, joined, reported_shown hidden, Trailing, last_cons cur some_,
          reported_shown hidden]
        by_cases none_ : reported haveHwec rest = []
        · have last := last_hidden rest some_ none_
          rw [pieces_none rest none_, none_, List.intercalate_singleton]
          exact ⟨fun _ => rfl, fun never => absurd ⟨last, List.cons_ne_nil _ _⟩ never⟩
        · rw [List.intercalate_cons_of_ne_nil none_]
          rw [Trailing, joined] at ih
          constructor
          · intro trailing
            rw [ih.1 ⟨trailing.1, none_⟩]
            simp only [List.append_assoc]
          · intro ends
            rw [ih.2 fun trailing => ends ⟨trailing.1, List.cons_ne_nil _ _⟩, List.append_assoc]

theorem pieces_clear (list : List Ecfactory) : ∀ p ∈ pieces haveHwec list, nul ∉ p ∧ p.length < 2 ^ 64 := by
  induction list with
  | nil => exact fun p never => absurd never List.not_mem_nil
  | cons cur rest ih =>
    rw [pieces]
    split
    case isTrue => exact ih
    case isFalse =>
      rw [List.forall_mem_cons]
      refine ⟨⟨cur.name.clear, cur.name.length⟩, ?_⟩
      split
      case isTrue =>
        rw [List.forall_mem_cons]
        exact ⟨by decide, ih⟩
      case isFalse => exact ih

end Pieces

section Append
variable {buf text p : List Char} {ps : List (List Char)} {room : Nat} {space : BitVec 64}

theorem fits_nil : Fits room [] := by
  intro before p after parts
  exact absurd parts (by simp)

theorem fits_cons (some_ : 0 < room) : Fits room (p :: ps) ↔
    (p.length < room → Fits (room - p.length) ps) ∧ (room < p.length → ∀ q ∈ ps, q = []) := by
  constructor
  · intro fits
    constructor
    · intro less before q after parts under past
      apply fits (p :: before) q after (by rw [parts]; rfl)
      · rw [List.flatten_cons, List.length_append]
        omega
      · rw [List.cons_append, List.flatten_cons, List.length_append]
        omega
    · intro past
      apply fits [] p ps rfl some_
      rw [List.nil_append, List.flatten_singleton]
      exact past
  · rintro ⟨within, beyond⟩ before q after parts under past
    cases before with
    | nil =>
      obtain ⟨rfl, rfl⟩ := List.cons.inj parts
      rw [List.nil_append, List.flatten_singleton] at past
      exact beyond past
    | cons first before =>
      obtain ⟨rfl, later⟩ := List.cons.inj parts
      rw [List.flatten_cons, List.length_append] at under
      rw [List.cons_append, List.flatten_cons, List.length_append] at past
      exact within (by omega) before q after later (by omega) (by omega)

theorem append_longer (ps : List (List Char)) (buf : List Char) (space : BitVec 64) :
    buf.length ≤ (append ps buf space).length := by
  induction ps generalizing buf space with
  | nil => exact Nat.le_refl _
  | cons p ps ih =>
    have first : buf.length ≤ (strncat nul buf p space.toNat).length := strncat_longer buf p space.toNat
    rw [append]
    split
    case isTrue => exact first
    case isFalse => exact Nat.le_trans first (ih _ _)

/-- Once the array is full and space is left by the count, nothing but empty pieces stay inside. -/
theorem append_full (full : Holds nul 80 buf text) (all : text.length = 79) (some_ : 0 < space.toNat) :
    ((∀ q ∈ ps, q = []) → Holds nul 80 (append ps buf space) text) ∧
      (¬ (∀ q ∈ ps, q = []) → 80 < (append ps buf space).length) := by
  induction ps generalizing buf with
  | nil => exact ⟨fun _ => full, fun never => absurd (fun q member => by cases member) never⟩
  | cons p ps ih =>
    cases p with
    | nil =>
      have same : Holds nul 80 (strncat nul buf [] space.toNat) (text ++ [].take space.toNat) :=
        holds_strncat full List.not_mem_nil some_ (by rw [List.take_nil, all]; decide)
      rw [List.take_nil, List.append_nil] at same
      have left : space - BitVec.ofNat 64 ([] : List Char).length = space := BitVec.sub_zero space
      have more : ¬ space < 1 := by bv_omega
      rw [append, left, if_neg more, List.forall_mem_cons]
      simp only [true_and]
      exact ih same
    | cons c p =>
      refine ⟨fun empty => absurd (empty _ List.mem_cons_self) (List.cons_ne_nil c p), fun _ => ?_⟩
      have taken : 0 < ((c :: p).take space.toNat).length := by
        rw [List.length_take, List.length_cons]
        omega
      have past : 80 < (strncat nul buf (c :: p) space.toNat).length := strncat_past full some_ (by omega)
      rw [append]
      split
      case isTrue => exact past
      case isFalse => exact Nat.lt_of_lt_of_le past (append_longer _ _ _)

/-- While the count is right, the array keeps as much of the pieces as it has room for, and is
    left if and only if they do not fit. -/
theorem append_fits (holds : Holds nul 80 buf text) (room : text.length + space.toNat = 79)
    (some_ : 0 < space.toNat) (clear : ∀ p ∈ ps, nul ∉ p ∧ p.length < 2 ^ 64) :
    (Fits space.toNat ps → Holds nul 80 (append ps buf space) ((text ++ ps.flatten).take 79)) ∧
      (¬ Fits space.toNat ps → 80 < (append ps buf space).length) := by
  induction ps generalizing buf text space with
  | nil =>
    refine ⟨fun _ => ?_, fun never => absurd fits_nil never⟩
    rw [List.flatten_nil, List.append_nil, List.take_of_length_le (by omega)]
    exact holds
  | cons p ps ih =>
    obtain ⟨⟨nul_free, length⟩, rest⟩ := List.forall_mem_cons.mp clear
    have here : Holds nul 80 (strncat nul buf p space.toNat) (text ++ p.take space.toNat) := by
      apply holds_strncat holds nul_free some_
      rw [List.length_take]
      omega
    rw [fits_cons some_, append, List.flatten_cons, ← List.append_assoc]
    obtain less | exact_ | more := Nat.lt_trichotomy p.length space.toNat
    · have left : (space - BitVec.ofNat 64 p.length).toNat = space.toNat - p.length := by bv_omega
      have open_ : ¬ space - BitVec.ofNat 64 p.length < 1 := by bv_omega
      rw [List.take_of_length_le (by omega)] at here
      have counted : (text ++ p).length + (space - BitVec.ofNat 64 p.length).toNat = 79 := by
        rw [List.length_append]
        omega
      have later := ih here counted (by omega) rest
      rw [left] at later
      rw [if_neg open_]
      constructor
      · exact fun fits => later.1 (fits.1 less)
      · exact fun unfit => later.2 fun fits => unfit ⟨fun _ => fits, fun beyond => absurd beyond (by omega)⟩
    · have closed : space - BitVec.ofNat 64 p.length < 1 := by bv_omega
      rw [List.take_of_length_le (by omega)] at here
      rw [if_pos closed, List.take_append_of_le_length (by rw [List.length_append]; omega),
        List.take_of_length_le (by rw [List.length_append]; omega)]
      refine ⟨fun _ => here, fun unfit => absurd ⟨fun less => ?_, fun beyond => ?_⟩ unfit⟩
      · exact absurd less (by omega)
      · exact absurd beyond (by omega)
    · have wrapped : ¬ space - BitVec.ofNat 64 p.length < 1 := by bv_omega
      have above : 0 < (space - BitVec.ofNat 64 p.length).toNat := by bv_omega
      have cut : (text ++ p ++ ps.flatten).take 79 = text ++ p.take space.toNat := by
        rw [List.append_assoc, List.take_append, List.take_of_length_le (by omega),
          List.take_append_of_le_length (by omega)]
        congr 2
        omega
      have full := @append_full _ _ ps _ here (by rw [List.length_append, List.length_take]; omega) above
      rw [if_neg wrapped, cut]
      constructor
      · exact fun fits => full.1 (fits.2 more)
      · exact fun unfit => full.2 fun empty => unfit ⟨fun less => absurd less (by omega), fun _ => empty⟩

end Append

section Version
variable (dahdiVersion : List Char) (spans : List (List Bool)) (list : List Ecfactory) (copied : Bool)

theorem zeros_holds : Holds nul echoCancellerSize (List.replicate echoCancellerSize nul) [] :=
  ⟨List.length_replicate, ⟨List.replicate 79 nul, rfl⟩, List.not_mem_nil⟩

/-- The array keeps the first 79 characters of the pieces, or is written past its end. -/
theorem version_pieces :
    (Fits 79 (pieces (anyHwecAvailable spans) list) →
      Holds nul echoCancellerSize (getVersion dahdiVersion spans list copied).1.echoCanceller
        ((pieces (anyHwecAvailable spans) list).flatten.take 79)) ∧
    (¬ Fits 79 (pieces (anyHwecAvailable spans) list) →
      echoCancellerSize < (getVersion dahdiVersion spans list copied).1.echoCanceller.length) := by
  rw [getVersion]
  dsimp only
  rw [listNames_append]
  exact @append_fits _ _ _ (BitVec.ofNat 64 79) zeros_holds rfl (by decide) (pieces_clear list)

/-- The array of the names ends with a nul inside its bounds, and has a prefix of the names with
    commas between them, if and only if the pieces that are appended come to no more than 79
    characters, or to just 79 at one of them, or pass 79 with the last that is not empty; and no
    comma is left behind the last name. -/
theorem version_names :
    (∃ text, Holds nul echoCancellerSize (getVersion dahdiVersion spans list copied).1.echoCanceller text ∧
      text <+: joined (anyHwecAvailable spans) list) ↔
    Fits (echoCancellerSize - 1) (pieces (anyHwecAvailable spans) list) ∧
      (Trailing (anyHwecAvailable spans) list →
        echoCancellerSize - 1 ≤ (joined (anyHwecAvailable spans) list).length) := by
  obtain ⟨kept, past⟩ := version_pieces dahdiVersion spans list copied
  obtain ⟨more, whole⟩ := @pieces_joined (anyHwecAvailable spans) list
  constructor
  · rintro ⟨text, holds, front⟩
    have fits : Fits 79 (pieces (anyHwecAvailable spans) list) := by
      by_contra unfit
      have longer := past unfit
      rw [holds.length] at longer
      exact Nat.lt_irrefl _ longer
    refine ⟨fits, fun trailing => ?_⟩
    have same := (holds_contents holds).symm.trans (holds_contents (kept fits))
    have short := front.length_le
    rw [same, more trailing, List.length_take, List.length_append, separator] at short
    simp only [echoCancellerSize, List.length_cons, List.length_nil] at short ⊢
    omega
  · rintro ⟨fits, room⟩
    refine ⟨_, kept fits, ?_⟩
    by_cases trailing : Trailing (anyHwecAvailable spans) list
    · have enough : 79 ≤ (joined (anyHwecAvailable spans) list).length := room trailing
      rw [more trailing, List.take_append_of_le_length enough]
      exact List.take_prefix 79 _
    · rw [whole trailing]
      exact List.take_prefix 79 _

end Version

def longName : Name := ⟨List.replicate 78 'A', by decide, by decide⟩
def mg2 : Name := ⟨['M', 'G', '2'], by decide, by decide⟩
def hwec : Name := ⟨['H', 'W', 'E', 'C'], by decide, by decide⟩

/-- One place is left for the separator, and the count of the space wraps. -/
theorem name_past_end : ¬ ∃ text, Holds nul echoCancellerSize
      (getVersion [] [] [⟨longName, false⟩, ⟨mg2, false⟩] true).1.echoCanceller text ∧
    text <+: joined false [⟨longName, false⟩, ⟨mg2, false⟩] := by
  rintro ⟨text, holds, _⟩
  have longer : (getVersion [] [] [⟨longName, false⟩, ⟨mg2, false⟩] true).1.echoCanceller.length = 83 := by
    decide +kernel
  have length := holds.length.symm.trans longer
  exact absurd length (by decide)

example : contents nul (getVersion [] [] [⟨mg2, false⟩, ⟨hwec, true⟩] true).1.echoCanceller =
    ['M', 'G', '2', ',', ' '] := by decide +kernel

end VersionNames
