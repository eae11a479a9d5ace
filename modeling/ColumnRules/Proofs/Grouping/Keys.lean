import ColumnRules.Grouping
import Mathlib.Data.List.Infix

/-!
# Keys tell column sets apart

A separator is found again behind a member if it starts with no quote and does not overlap itself:
without quotes the member ends at the first separator, and a quoted member ends at the first
quote that is not doubled. So the key of a column set gives back its members one by one.
-/

set_option autoImplicit false

namespace ColumnRules

/-- Only the empty text and the whole separator both begin and end a separator. -/
structure IsSeparator (separator : List Char) : Prop where
  nonempty : separator ≠ []
  unquoted : '"' ∉ separator
  unbordered : ∀ u : List Char, u <+: separator → u <:+ separator → u = [] ∨ u = separator

instance (separator : List Char) : Decidable (IsSeparator separator) :=
  decidable_of_iff (separator ≠ [] ∧ '"' ∉ separator ∧
      ∀ u ∈ separator.inits, u <:+ separator → u = [] ∨ u = separator)
    ⟨fun h => ⟨h.1, h.2.1, fun u hu => h.2.2 u ((List.mem_inits u separator).mpr hu)⟩,
      fun h => ⟨h.nonempty, h.unquoted, fun u hu =>
        h.unbordered u ((List.mem_inits u separator).mp hu)⟩⟩

example : IsSeparator "-".toList ∧ ¬ IsSeparator " + ".toList := by decide

/-- Only the empty text and the whole one both begin and end the text. -/
def Unbordered (s : List Char) : Prop :=
  ∀ u : List Char, u <+: s → u <:+ s → u = [] ∨ u = s

instance (s : List Char) : Decidable (Unbordered s) :=
  decidable_of_iff (∀ u ∈ s.inits, u <:+ s → u = [] ∨ u = s)
    ⟨fun h u hu => h u ((List.mem_inits u s).mpr hu), fun h u hu => h u ((List.mem_inits u s).mp hu)⟩

/-- The separator is found again behind any member. Quotes inside it do no harm. -/
structure Delimits (separator : List Char) : Prop where
  nonempty : separator ≠ []
  unquoted : separator.head? ≠ some '"'
  unbordered : Unbordered separator

theorem IsSeparator.delimits {separator : List Char} (h : IsSeparator separator) :
    Delimits separator where
  nonempty := h.nonempty
  unquoted hhead := h.unquoted (List.mem_of_mem_head? hhead)
  unbordered := h.unbordered

theorem occursIn_iff {text s : List Char} : occursIn text s = true ↔ text <:+: s := by
  induction s with
  | nil => rw [occursIn, List.isEmpty_iff, List.infix_nil]
  | cons c s ih => rw [occursIn, Bool.or_eq_true, List.isPrefixOf_iff_prefix, ih, List.infix_cons_iff]

/-- A quoted member ends at the first quote that is not doubled. -/
theorem doubleQuotes_cancel {m n t u : List Char} (ht : t.head? ≠ some '"')
    (hu : u.head? ≠ some '"') (h : doubleQuotes m ++ '"' :: t = doubleQuotes n ++ '"' :: u) :
    m = n ∧ t = u := by
  induction m generalizing n with
  | nil =>
    cases n with
    | nil => exact ⟨rfl, List.tail_eq_of_cons_eq h⟩
    | cons d n =>
      rw [doubleQuotes, doubleQuotes] at h
      split at h
      · exact absurd (congrArg List.head? (List.tail_eq_of_cons_eq h)) ht
      · rename_i hd
        exact absurd (List.head_eq_of_cons_eq h).symm hd
  | cons c m ih =>
    cases n with
    | nil =>
      rw [doubleQuotes, doubleQuotes] at h
      split at h
      · exact absurd (congrArg List.head? (List.tail_eq_of_cons_eq h)).symm hu
      · rename_i hc
        exact absurd (List.head_eq_of_cons_eq h) hc
    | cons d n =>
      rw [doubleQuotes, doubleQuotes] at h
      split at h <;> split at h
      · rename_i hc hd
        obtain ⟨rfl, htail⟩ := ih (List.tail_eq_of_cons_eq (List.tail_eq_of_cons_eq h))
        exact ⟨by rw [hc, hd], htail⟩
      · rename_i hd
        exact absurd (List.head_eq_of_cons_eq h).symm hd
      · rename_i hc _
        exact absurd (List.head_eq_of_cons_eq h) hc
      · obtain ⟨rfl, htail⟩ := ih (List.tail_eq_of_cons_eq h)
        exact ⟨by rw [List.head_eq_of_cons_eq h], htail⟩

/-- What stands behind a member of a key: the end, or the separator. -/
def EndsMember (separator tail : List Char) : Prop := tail = [] ∨ separator <+: tail

namespace Delimits

variable {separator : List Char} (hsep : Delimits separator)
include hsep

theorem head?_ne_quote {tail : List Char} (h : EndsMember separator tail) :
    tail.head? ≠ some '"' := by
  rcases h with rfl | ⟨rest, rfl⟩
  · exact nofun
  · obtain ⟨c, cs, rfl⟩ := List.exists_cons_of_ne_nil hsep.nonempty
    exact hsep.unquoted

/-- A member without the separator cannot reach into the separator behind a shorter one. -/
theorem overhang_eq_nil {m u tail : List Char} (hfree : ¬ separator <:+: m ++ u)
    (hlong : EndsMember separator (u ++ tail)) (htail : EndsMember separator tail) : u = [] := by
  rcases hlong with hnil | hprefix
  · exact (List.append_eq_nil_iff.mp hnil).1
  by_cases hlength : separator.length ≤ u.length
  · have hu : separator <+: u :=
      List.prefix_of_prefix_length_le hprefix (List.prefix_append u tail) hlength
    exact absurd (hu.isInfix.trans (List.suffix_append m u).isInfix) hfree
  -- The separator starts inside the member and ends behind it, so its end is also its beginning.
  · have hu : u <+: separator :=
      List.prefix_of_prefix_length_le (List.prefix_append u tail) hprefix (by omega)
    obtain ⟨v, hv⟩ := hu
    have hvtail : v <+: tail := by
      rwa [← hv, List.prefix_append_right_inj] at hprefix
    have hlengths : u.length + v.length = separator.length := by rw [← hv, List.length_append]
    have hvsep : v <+: separator := by
      rcases htail with rfl | htail
      · obtain rfl := List.prefix_nil.mp hvtail
        exact List.nil_prefix
      · exact List.prefix_of_prefix_length_le hvtail htail (by omega)
    rcases hsep.unbordered v hvsep ⟨u, hv⟩ with rfl | rfl
    · rw [List.length_nil] at hlengths
      omega
    · exact List.eq_nil_of_length_eq_zero (by omega)

/-- A member without the separator ends at the first separator. -/
theorem bare_cancel {m n t u : List Char} (hm : ¬ separator <:+: m) (hn : ¬ separator <:+: n)
    (ht : EndsMember separator t) (hu : EndsMember separator u) (h : m ++ t = n ++ u) :
    m = n ∧ t = u := by
  rcases List.append_eq_append_iff.mp h with ⟨v, rfl, rfl⟩ | ⟨v, rfl, rfl⟩
  · obtain rfl := hsep.overhang_eq_nil hn ht hu
    exact ⟨(List.append_nil m).symm, rfl⟩
  · obtain rfl := hsep.overhang_eq_nil hm hu ht
    exact ⟨List.append_nil n, rfl⟩

end Delimits

namespace ColumnSet

variable {separator : List Char}

theorem needsQuotes_eq_false {m : List Char} :
    needsQuotes separator m = false ↔ ¬ separator <:+: m ∧ m.head? ≠ some '"' := by
  rw [needsQuotes, Bool.or_eq_false_iff, beq_eq_false_iff_ne, ← Bool.not_eq_true, occursIn_iff]

/-- What stands behind the first of several joined members. -/
def joinedTail (separator : List Char) : List (List Char) → List Char
  | [] => []
  | member :: members => separator ++ joinMembers separator (member :: members)

theorem joinMembers_cons (m : List Char) (ms : List (List Char)) :
    joinMembers separator (m :: ms) = keyMember separator m ++ joinedTail separator ms := by
  cases ms with
  | nil => rw [joinMembers, joinedTail, List.append_nil]
  | cons => rfl

theorem endsMember_joinedTail (ms : List (List Char)) :
    EndsMember separator (joinedTail separator ms) := by
  cases ms with
  | nil => exact .inl rfl
  | cons m ms => exact .inr (List.prefix_append _ _)

variable (hsep : Delimits separator)
include hsep

theorem bare_head?_ne_quote {m t : List Char} (hm : m.head? ≠ some '"')
    (ht : EndsMember separator t) : (m ++ t).head? ≠ some '"' := by
  cases m with
  | nil => exact hsep.head?_ne_quote ht
  | cons c m => exact hm

/-- The text of a member tells where the member ends. -/
theorem keyMember_cancel {m n t u : List Char} (ht : EndsMember separator t)
    (hu : EndsMember separator u) (h : keyMember separator m ++ t = keyMember separator n ++ u) :
    m = n ∧ t = u := by
  unfold keyMember at h
  split at h <;> split at h
  · simp only [List.cons_append, List.append_assoc, List.cons.injEq, true_and,
      List.nil_append] at h
    exact doubleQuotes_cancel (hsep.head?_ne_quote ht) (hsep.head?_ne_quote hu) h
  · rename_i hn
    have hhead := bare_head?_ne_quote hsep
      (needsQuotes_eq_false.mp (Bool.eq_false_iff.mpr hn)).2 hu
    rw [← h] at hhead
    exact absurd rfl hhead
  · rename_i hm _
    have hhead := bare_head?_ne_quote hsep
      (needsQuotes_eq_false.mp (Bool.eq_false_iff.mpr hm)).2 ht
    rw [h] at hhead
    exact absurd rfl hhead
  · rename_i hm hn
    have hbarem := needsQuotes_eq_false.mp (Bool.eq_false_iff.mpr hm)
    have hbaren := needsQuotes_eq_false.mp (Bool.eq_false_iff.mpr hn)
    exact hsep.bare_cancel hbarem.1 hbaren.1 ht hu h

theorem joinMembers_cancel {m n : List Char} {ms ns : List (List Char)}
    (h : joinMembers separator (m :: ms) = joinMembers separator (n :: ns)) :
    m :: ms = n :: ns := by
  induction ms generalizing m n ns with
  | nil =>
    rw [joinMembers_cons, joinMembers_cons] at h
    obtain ⟨rfl, htail⟩ :=
      keyMember_cancel hsep (endsMember_joinedTail []) (endsMember_joinedTail ns) h
    cases ns with
    | nil => rfl
    | cons n' ns => exact absurd (List.append_eq_nil_iff.mp htail.symm).1 hsep.nonempty
  | cons m' ms ih =>
    rw [joinMembers_cons, joinMembers_cons] at h
    obtain ⟨rfl, htail⟩ :=
      keyMember_cancel hsep (endsMember_joinedTail _) (endsMember_joinedTail ns) h
    cases ns with
    | nil => exact absurd (List.append_eq_nil_iff.mp htail).1 hsep.nonempty
    | cons n' ns => rw [ih (List.append_cancel_left htail)]

end ColumnSet

theorem ColumnSet.groupKey_eq_none {columns : ColumnSet} {separator : String} :
    columns.groupKey separator = none ↔ columns.isEmpty = true := by
  unfold groupKey
  split <;> simp_all

/-- Two column sets with the same key are the same set. -/
theorem ColumnSet.eq_of_groupKey {a b : ColumnSet} {separator key : String}
    (hsep : Delimits separator.toList) (ha : a.groupKey separator = some key)
    (hb : b.groupKey separator = some key) : a = b := by
  obtain ⟨as, hascending⟩ := a
  obtain ⟨bs, hascending'⟩ := b
  cases as with
  | nil => cases ha
  | cons x xs =>
    cases bs with
    | nil => cases hb
    | cons y ys =>
      have hkeys := (Option.some.inj ha).trans (Option.some.inj hb).symm
      have hnames := joinMembers_cancel hsep (String.ofList_injective hkeys)
      have hsame : x :: xs = y :: ys :=
        List.map_injective_iff.mpr (fun _ _ hname => String.toList_injective hname) hnames
      cases hsame
      rfl

theorem ColumnSet.shareKey_iff {a b : ColumnSet} {separator : String}
    (hsep : IsSeparator separator.toList) :
    (∃ key, a.groupKey separator = some key ∧ b.groupKey separator = some key) ↔
      a = b ∧ a.isEmpty = false := by
  rw [Bool.eq_false_iff, ne_eq, ← groupKey_eq_none]
  constructor
  · rintro ⟨key, ha, hb⟩
    refine ⟨eq_of_groupKey hsep.delimits ha hb, ?_⟩
    rw [ha]
    exact nofun
  · rintro ⟨rfl, hne⟩
    obtain ⟨key, hkey⟩ := Option.ne_none_iff_exists'.mp hne
    exact ⟨key, hkey, hkey⟩

end ColumnRules
