import ColumnRules.Config
import ColumnRules.Proofs.Grouping.Keys

/-!
# Separators that overlap themselves

A separator that begins and ends with the same text is found at two places of one key: the end of
a member may as well belong to the separator behind it. Two column sets then share the key. So of
the separators without quotes only the unbordered ones tell all column sets apart.
-/

set_option autoImplicit false

namespace ColumnRules

/-- No two column sets share a key. -/
def KeysDiffer (separator : String) : Prop :=
  ∀ (a b : ColumnSet) (key : String), a.groupKey separator = some key →
    b.groupKey separator = some key → a = b

theorem keysDiffer_of_delimits {separator : String} (h : Delimits separator.toList) :
    KeysDiffer separator :=
  fun _ _ _ ha hb => ColumnSet.eq_of_groupKey h ha hb

namespace ColumnSet

def pair (first second : String) (h : first < second) : ColumnSet :=
  ⟨[first, second], List.pairwise_pair.mpr h⟩

theorem groupKey_pair {separator first second : String} (h : first < second)
    (hfirst : needsQuotes separator.toList first.toList = false)
    (hsecond : needsQuotes separator.toList second.toList = false) :
    (pair first second h).groupKey separator =
      some (String.ofList (first.toList ++ (separator.toList ++ second.toList))) := by
  have hkeys : joinMembers separator.toList [first.toList, second.toList] =
      first.toList ++ (separator.toList ++ second.toList) := by
    simp only [joinMembers, keyMember, hfirst, hsecond, Bool.false_eq_true, if_false]
  rw [← hkeys]
  rfl

end ColumnSet

/-- Members around one separator that can be cut in two ways: behind `p` and `y` stands `t`, or
behind `p` alone stand `x` and `t`. No member needs quotes. -/
structure Overlap (separator p y x t : List Char) : Prop where
  same : y ++ separator = separator ++ x
  nonempty : y ≠ []
  bare : ∀ m ∈ [p, p ++ y, t, x ++ t], ColumnSet.needsQuotes separator m = false
  late : p ++ y < t
  early : p < x ++ t

theorem Overlap.not_keysDiffer {separator : String} {p y x t : List Char}
    (h : Overlap separator.toList p y x t) : ¬ KeysDiffer separator := by
  intro hdiffer
  have hname (m : List Char) (hm : m ∈ [p, p ++ y, t, x ++ t]) :
      ColumnSet.needsQuotes separator.toList (String.ofList m).toList = false := by
    rw [String.toList_ofList]
    exact h.bare m hm
  have hlate : String.ofList (p ++ y) < String.ofList t := by
    rw [String.lt_iff, String.toList_ofList, String.toList_ofList]
    exact h.late
  have hearly : String.ofList p < String.ofList (x ++ t) := by
    rw [String.lt_iff, String.toList_ofList, String.toList_ofList]
    exact h.early
  have hkeyLate := ColumnSet.groupKey_pair hlate (hname _ (by simp)) (hname _ (by simp))
  have hkeyEarly := ColumnSet.groupKey_pair hearly (hname _ (by simp)) (hname _ (by simp))
  have hsame : p ++ y ++ (separator.toList ++ t) = p ++ (separator.toList ++ (x ++ t)) := by
    rw [List.append_assoc, ← List.append_assoc y, h.same, List.append_assoc]
  simp only [String.toList_ofList] at hkeyLate hkeyEarly
  rw [hsame] at hkeyLate
  have hsets := congrArg ColumnSet.names (hdiffer _ _ _ hkeyLate hkeyEarly)
  have hfirst := String.ofList_injective (List.head_eq_of_cons_eq hsets)
  exact h.nonempty (List.append_right_eq_self.mp hfirst)

/-- A text in front of a border and one behind it: the separator begins and ends with `b`. -/
structure Border (s y b x : List Char) : Prop where
  front : s = y ++ b
  back : s = b ++ x
  front_ne : y ≠ []
  border_ne : b ≠ []
  back_ne : x ≠ []

theorem exists_border {s : List Char} (h : ¬ Unbordered s) : ∃ y b x, Border s y b x := by
  unfold Unbordered at h
  push Not at h
  obtain ⟨b, ⟨x, hx⟩, ⟨y, hy⟩, hb, hne⟩ := h
  refine ⟨y, b, x, hy.symm, hx.symm, ?_, hb, ?_⟩
  · rintro rfl
    exact hne hy
  · rintro rfl
    rw [List.append_nil] at hx
    exact hne hx

theorem ColumnSet.needsQuotes_of_ne {s m : List Char} (hlength : m.length ≤ s.length) (hne : m ≠ s)
    (hquote : m.head? ≠ some '"') : needsQuotes s m = false := by
  refine needsQuotes_eq_false.mpr ⟨?_, hquote⟩
  intro hoccurs
  exact hne (hoccurs.eq_of_length_le hlength).symm

theorem ColumnSet.needsQuotes_cons {s m : List Char} {c : Char} (hlength : m.length < s.length)
    (hc : s.head? ≠ some c) (hquote : c ≠ '"') : needsQuotes s (c :: m) = false := by
  refine needsQuotes_of_ne hlength ?_ ?_
  · rintro rfl
    exact hc rfl
  · rwa [List.head?_cons, ne_eq, Option.some.injEq]

namespace Border

variable {s y b x : List Char} (h : Border s y b x)
include h

theorem append_comm : y ++ s = s ++ x := by
  rw [h.back, ← List.append_assoc, ← h.front, h.back]

theorem length_front_lt : y.length < s.length := by
  rw [h.front, List.length_append]
  have := List.length_pos_iff.mpr h.border_ne
  omega

theorem length_back_lt : x.length < s.length := by
  rw [h.back, List.length_append]
  have := List.length_pos_iff.mpr h.border_ne
  omega

theorem head?_front : y.head? = s.head? := by
  rw [h.front, List.head?_append_of_ne_nil _ h.front_ne]

/-- A border of one character is the first character of the separator, and the last. -/
theorem back_append_ne {c : Char} (hc : s.head? ≠ some c) : x ++ [c] ≠ s := by
  intro heq
  obtain ⟨d, u, hb⟩ := List.exists_cons_of_ne_nil h.border_ne
  have hlength := congrArg List.length (heq.trans h.back)
  rw [hb] at hlength
  simp only [List.length_append, List.length_cons, List.length_nil] at hlength
  obtain rfl : u = [] := List.eq_nil_of_length_eq_zero (by omega)
  have hlast := congrArg List.getLast? (heq.trans h.front)
  rw [hb, List.getLast?_append, List.getLast?_append] at hlast
  obtain rfl : c = d := Option.some.inj hlast
  rw [h.back, hb] at hc
  exact hc rfl

variable (hquote : '"' ∉ s)
include hquote

theorem needsQuotes_front : ColumnSet.needsQuotes s y = false := by
  refine ColumnSet.needsQuotes_of_ne (Nat.le_of_lt h.length_front_lt) ?_ ?_
  · exact fun heq => Nat.ne_of_lt h.length_front_lt (congrArg List.length heq)
  · rw [h.head?_front]
    exact fun hhead => hquote (List.mem_of_mem_head? hhead)

theorem needsQuotes_back {c : Char} (hc : s.head? ≠ some c) :
    ColumnSet.needsQuotes s (x ++ [c]) = false := by
  refine ColumnSet.needsQuotes_of_ne ?_ (h.back_append_ne hc) ?_
  · rw [List.length_append, List.length_singleton]
    exact h.length_back_lt
  · rw [List.head?_append_of_ne_nil _ h.back_ne]
    intro hhead
    apply hquote
    rw [h.back]
    exact List.mem_append_right b (List.mem_of_mem_head? hhead)

variable {c : Char} (hc : s.head? ≠ some c) (hcquote : c ≠ '"') (hpos : '\x00' < c)
include hc hcquote hpos

/-- The front of a separator that starts with the least character sorts in front of the letter. -/
theorem overlap_nil (hzero : s.head? = some '\x00') : Overlap s [] y x [c] := by
  have hlength := Nat.zero_lt_of_lt h.length_front_lt
  constructor
  · exact h.append_comm
  · exact h.front_ne
  · simp only [List.forall_mem_cons, List.nil_append]
    refine ⟨?_, h.needsQuotes_front hquote, ?_, h.needsQuotes_back hquote hc, nofun⟩
    · refine ColumnSet.needsQuotes_of_ne (Nat.zero_le _) ?_ nofun
      exact fun heq => Nat.ne_of_lt hlength (congrArg List.length heq)
    · exact ColumnSet.needsQuotes_cons hlength hc hcquote
  · rw [← h.head?_front] at hzero
    obtain ⟨u, rfl⟩ := List.head?_eq_some_iff.mp hzero
    exact List.cons_lt_cons_iff.mpr (.inl hpos)
  · obtain ⟨d, u, rfl⟩ := List.exists_cons_of_ne_nil h.back_ne
    exact List.nil_lt_cons d _

/-- The least character in front of any other separator sorts the members. -/
theorem overlap_zero (hzero : s.head? ≠ some '\x00') : Overlap s ['\x00'] y x [c] := by
  have hlength := Nat.zero_lt_of_lt h.length_front_lt
  constructor
  · exact h.append_comm
  · exact h.front_ne
  · simp only [List.forall_mem_cons, List.cons_append, List.nil_append]
    refine ⟨?_, ?_, ?_, h.needsQuotes_back hquote hc, nofun⟩
    · exact ColumnSet.needsQuotes_cons hlength hzero (by decide)
    · exact ColumnSet.needsQuotes_cons h.length_front_lt hzero (by decide)
    · exact ColumnSet.needsQuotes_cons hlength hc hcquote
  · exact List.cons_lt_cons_iff.mpr (.inl hpos)
  · obtain ⟨d, u, rfl⟩ := List.exists_cons_of_ne_nil h.back_ne
    apply List.cons_lt_cons_iff.mpr
    by_cases hd : '\x00' = d
    · refine .inr ⟨hd, ?_⟩
      cases u with
      | nil => exact List.nil_lt_cons c []
      | cons e u => exact List.nil_lt_cons e _
    · have hle : '\x00' ≤ d := Nat.zero_le d.val.toNat
      exact .inl (Char.not_le.mp fun hge => hd (Char.le_antisymm hle hge))

end Border

/-- A letter that neither is a quote nor starts the separator. -/
theorem exists_letter (s : List Char) : ∃ c, c ≠ '"' ∧ '\x00' < c ∧ s.head? ≠ some c := by
  by_cases ha : s.head? = some 'a'
  · refine ⟨'b', by decide, by decide, ?_⟩
    rw [ha]
    decide
  · exact ⟨'a', by decide, by decide, ha⟩

/-- Without quotes, a separator tells column sets apart only if it does not overlap itself. -/
theorem unbordered_of_keysDiffer {separator : String} (hquote : '"' ∉ separator.toList)
    (h : KeysDiffer separator) : Unbordered separator.toList := by
  by_contra hbordered
  obtain ⟨y, b, x, hborder⟩ := exists_border hbordered
  obtain ⟨c, hcquote, hpos, hc⟩ := exists_letter separator.toList
  by_cases hzero : separator.toList.head? = some '\x00'
  · exact (hborder.overlap_nil hquote hc hcquote hpos hzero).not_keysDiffer h
  · exact (hborder.overlap_zero hquote hc hcquote hpos hzero).not_keysDiffer h

theorem Config.separator_ne {config : Config} (h : config.fault? = none) :
    config.separator.toList ≠ [] := by
  intro hnil
  have hempty : config.separator.isEmpty = true := by
    rw [String.toList_eq_nil_iff.mp hnil]
    rfl
  simp only [fault?, hempty, if_true] at h
  split at h
  · cases h
  split at h <;> cases h

/-- Of the separators without quotes exactly the unbordered ones give different column sets
different keys. Quotes behind the first character of an unbordered separator do no harm. -/
theorem Config.keysDiffer_iff {config : Config} (h : config.fault? = none) :
    ('"' ∉ config.separator.toList →
      (KeysDiffer config.separator ↔ Unbordered config.separator.toList)) ∧
    (config.separator.toList.head? ≠ some '"' → Unbordered config.separator.toList →
      KeysDiffer config.separator) := by
  have hdelimits (hhead : config.separator.toList.head? ≠ some '"')
      (hunbordered : Unbordered config.separator.toList) : KeysDiffer config.separator :=
    keysDiffer_of_delimits ⟨config.separator_ne h, hhead, hunbordered⟩
  refine ⟨?_, hdelimits⟩
  intro hquote
  refine ⟨unbordered_of_keysDiffer hquote, hdelimits ?_⟩
  exact fun hhead => hquote (List.mem_of_mem_head? hhead)

/-- A separator with a quote in it, and one that overlaps itself. -/
theorem Config.keysDiffer_iff_arrow :
    ({ standard with separator := "-\">" } : Config).fault? = none ∧
    KeysDiffer "-\">" ∧ ¬ KeysDiffer "->-" := by
  have hfault : ({ standard with separator := "->-" } : Config).fault? = none := by decide +kernel
  have hfault' : ({ standard with separator := "-\">" } : Config).fault? = none := by decide +kernel
  refine ⟨hfault', (keysDiffer_iff hfault').2 (by decide) (by decide), ?_⟩
  intro hdiffer
  have hunbordered := ((keysDiffer_iff hfault).1 (by decide)).mp hdiffer
  revert hunbordered
  decide

/-- The underscores of `A_` and `_b` run together with those of the separator. -/
theorem Config.not_forall_keysDiffer :
    ¬ ∀ config : Config, config.fault? = none → KeysDiffer config.separator := by
  intro h
  have hdiffer := h { standard with separator := "__" } (by decide +kernel)
  have hsame := hdiffer (.ofList ["A_", "b"]) (.ofList ["A", "_b"]) "A___b" (by decide +kernel)
    (by decide +kernel)
  revert hsame
  decide +kernel

end ColumnRules
