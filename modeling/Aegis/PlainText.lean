import Aegis.Redact
import Aegis.Scalars

namespace Aegis

open Regex Pattern

def hexDigits : List Char := "0123456789abcdef".toList

theorem redactionPatterns_nonempty : ∀ entry ∈ redactionPatterns, 0 < entry.2.minLength := by
  decide

theorem redact_plain {table : UnicodeTable} {chars : List Char} {s : String}
    (unable : ∀ entry ∈ redactionPatterns, entry.2.canUse chars = false)
    (plain : ∀ c ∈ s.toList, c ∈ chars) : redact table s = ⟨s, 0⟩ := by
  have fixed : ∀ entry ∈ redactionPatterns,
      substitute table entry (s.toList, 0) = (s.toList, 0) := by
    intro entry hentry
    obtain ⟨hreplaced, hhits⟩ := @replaced_of_plain table.isWord entry.2 none s.toList _ chars
      (redactionToken entry.1) (unable entry hentry) plain
      (scan_pieces (redactionPatterns_nonempty entry hentry) s.toList)
    rw [substitute, hreplaced, hhits]
    rfl
  have fold : ∀ entries ⊆ redactionPatterns,
      entries.foldl (fun state entry => substitute table entry state) (s.toList, 0) =
        (s.toList, 0) := by
    intro entries
    induction entries with
    | nil => exact fun _ => rfl
    | cons entry rest ih =>
      intro sub
      rw [List.foldl_cons, fixed entry (sub List.mem_cons_self)]
      exact ih fun _ h => sub (List.mem_cons_of_mem _ h)
  unfold redact
  split
  · rfl
  · rw [fold _ fun _ h => h]
    dsimp only
    rw [String.ofList_toList]

theorem hexChars_mem {width n : Nat} {c : Char} (h : c ∈ hexChars width n) : c ∈ hexDigits := by
  have digit : ∀ n < 16, Nat.digitChar n ∈ hexDigits := by decide
  induction width generalizing n with
  | zero => simp [hexChars] at h
  | succ width ih =>
    rcases List.mem_append.mp h with h | h
    · exact ih h
    · rw [List.mem_singleton.mp h]
      exact digit _ (Nat.mod_lt n (by omega))

theorem uuid_chars (id : Uuid) : ∀ c ∈ id.str.toList, c ∈ '-' :: hexDigits := by
  intro c hc
  by_cases hyphen : c = '-'
  · exact List.mem_cons.mpr (.inl hyphen)
  · have kept : c ∈ id.str.toList.filter (· ≠ '-') :=
      List.mem_filter.mpr ⟨hc, decide_eq_true hyphen⟩
    rw [Uuid.str_without_hyphens] at kept
    exact List.mem_cons_of_mem _ (hexChars_mem kept)

theorem strip_uuid (id : Uuid) : strip id.str = id.str := by
  have visible : ('-' :: hexDigits).all (fun c => !isSpace c) = true := by decide
  refine strip_eq_self_of_no_space fun c hc => ?_
  simpa using List.all_eq_true.mp visible c (uuid_chars id c hc)

theorem redact_uuid (table : UnicodeTable) (id : Uuid) : redact table id.str = ⟨id.str, 0⟩ :=
  @redact_plain table ('-' :: hexDigits) id.str (by decide) (uuid_chars id)

end Aegis
