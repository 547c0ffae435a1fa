import Aegis.EvidenceProjection
import Aegis.JsonText
import Aegis.RegexLines

namespace Aegis

open Regex Pattern JsonText

/-- What the client takes from `json`: `loads`, with nothing for a text it raises on, and the texts
that `dumps` gives under one or other of its options. `strings` are the keys and the string values
of the data. -/
structure JsonModule (Data : Type) where
  loads : List Char → Option Data
  isDict : Data → Bool
  strings : Data → List (List Char)
  Dumps : Data → List Char → Prop

/-- `loads` inverts `dumps`; both go by the string literals of a text. -/
structure JsonModule.Lawful {Data : Type} (json : JsonModule Data) : Prop where
  inverts : ∀ {d text}, json.Dumps d text → json.loads text = some d
  braces : ∀ {d text}, json.Dumps d text → json.isDict d = true →
    ∃ inner, text = '\x7b' :: (inner ++ ['\x7d'])
  writes : ∀ {d text}, json.Dumps d text → ∃ literals, Lexes text literals ∧
    ∀ literal ∈ literals, literal.2 ∈ json.strings d
  reads : ∀ {d text}, json.loads text = some d → ∃ literals, Lexes text literals ∧
    ∀ s ∈ json.strings d, ∃ raw, (raw, s) ∈ literals

/-- No part of the pattern asks for word boundaries. -/
def noWord : Char → Bool := fun _ => false

/-- ```` ```(?:json)?\s* ```` -/
def fenceLead : Pattern :=
  all [literal fence, Pattern.optional (literal ['j', 's', 'o', 'n']), greedy isSpace 0]

/-- ```` \s*``` ```` -/
def fenceTail : Pattern := all [greedy isSpace 0, literal fence]

/-- What `(.*?)` may take, in the order in which it is tried. -/
def bodies (prev : Option Char) (s : List Char) : List (List Char) :=
  (ends noWord (lazy (fun _ => true) 0) prev s).flatMap fun body =>
    (ends noWord fenceTail (before prev body.1) body.2).map fun _ => body.1

def groupsAt (prev : Option Char) (s : List Char) : List (List Char) :=
  (ends noWord fenceLead prev s).flatMap fun lead => bodies (before prev lead.1) lead.2

/-- `_FENCE_RE.search(..).group(1)` -/
def fenceGroup : Option Char → List Char → Option (List Char)
  | prev, [] => (groupsAt prev []).head?
  | prev, c :: s => (groupsAt prev (c :: s)).head?.or (fenceGroup (some c) s)

/-- `_parse_json_object` -/
def parseJsonObject {Data : Type} (json : JsonModule Data) (text : String) : Except Raised Data :=
  let stripped := strip text
  let stripped := match fenceGroup none stripped.toList with
    | some group => strip (String.ofList group)
    | none => stripped
  match json.loads stripped.toList with
  | none => .error (.invalid "Claude response was not valid JSON.")
  | some parsed =>
    if json.isDict parsed then .ok parsed
    else .error (.invalid "Claude JSON must be an object.")

section Matching

variable {prev : Option Char} {s u taken rest g : List Char}

theorem mem_ends_lead : (taken, rest) ∈ ends noWord fenceLead prev s ↔
    ∃ tag space, (tag = ['j', 's', 'o', 'n'] ∨ tag = []) ∧ (∀ c ∈ space, isSpace c = true) ∧
      taken = fence ++ (tag ++ space) ∧ s = fence ++ (tag ++ (space ++ rest)) := by
  unfold fenceLead Pattern.optional
  simp only [all, mem_ends_seq, mem_ends_literal, mem_ends_alt, mem_ends_empty, mem_ends_greedy]
  constructor
  · rintro ⟨_, _, _, ⟨rfl, rfl⟩, ⟨_, _, _, htag, ⟨_, _, _, ⟨rfl, hspace, _⟩, ⟨rfl, rfl⟩, rfl⟩, rfl⟩, rfl⟩
    rcases htag with ⟨rfl, rfl⟩ | ⟨rfl, rfl⟩
    · exact ⟨_, _, .inl rfl, hspace, by simp, rfl⟩
    · exact ⟨_, _, .inr rfl, hspace, by simp, rfl⟩
  · rintro ⟨tag, space, htag, hspace, rfl, rfl⟩
    refine ⟨fence, _, tag ++ space, ⟨rfl, rfl⟩, ⟨tag, space ++ rest, space, ?_,
      ⟨space, rest, [], ⟨rfl, hspace, Nat.zero_le _⟩, ⟨rfl, rfl⟩, by simp⟩, rfl⟩, rfl⟩
    rcases htag with rfl | rfl
    · exact .inl ⟨rfl, rfl⟩
    · exact .inr ⟨rfl, rfl⟩

theorem mem_ends_tail : (taken, rest) ∈ ends noWord fenceTail prev s ↔
    ∃ space, (∀ c ∈ space, isSpace c = true) ∧ taken = space ++ fence ∧
      s = space ++ (fence ++ rest) := by
  unfold fenceTail
  simp only [all, mem_ends_seq, mem_ends_literal, mem_ends_empty, mem_ends_greedy]
  constructor
  · rintro ⟨_, _, _, ⟨rfl, hspace, _⟩, ⟨_, _, _, ⟨rfl, rfl⟩, ⟨rfl, rfl⟩, rfl⟩, rfl⟩
    exact ⟨_, hspace, by simp, rfl⟩
  · rintro ⟨space, hspace, rfl, rfl⟩
    exact ⟨space, fence ++ rest, fence, ⟨rfl, hspace, Nat.zero_le _⟩,
      ⟨fence, rest, [], ⟨rfl, rfl⟩, ⟨rfl, rfl⟩, by simp⟩, rfl⟩

/-- A lazy class is tried from the shortest text on. -/
theorem runs_sorted (p : Char → Bool) (s : List Char) :
    (runs p s).Pairwise fun a b => a.1.length < b.1.length := by
  induction s with
  | nil => exact List.pairwise_singleton _ _
  | cons c s ih =>
    rw [runs, List.pairwise_cons]
    split
    · refine ⟨fun split hsplit => ?_, ?_⟩
      · obtain ⟨later, _, rfl⟩ := List.mem_map.mp hsplit
        exact Nat.succ_pos _
      · exact List.pairwise_map.mpr (ih.imp fun h => Nat.succ_lt_succ h)
    · exact ⟨by simp, List.Pairwise.nil⟩

theorem runs_getLast (p : Char → Bool) (s : List Char) :
    (runs p s).getLast? = some (s.takeWhile p, s.dropWhile p) := by
  induction s with
  | nil => rfl
  | cons c s ih =>
    rw [runs]
    by_cases hc : p c = true
    · rw [if_pos hc, List.getLast?_cons, List.getLast?_map, ih, List.takeWhile_cons_of_pos hc,
        List.dropWhile_cons_of_pos hc]
      rfl
    · rw [if_neg hc, List.takeWhile_cons_of_neg hc, List.dropWhile_cons_of_neg hc]
      rfl

/-- A text up to a fence, which may have white space before it. -/
def FencedAt (s g : List Char) : Prop :=
  ∃ space rest, (∀ c ∈ space, isSpace c = true) ∧ s = g ++ (space ++ (fence ++ rest))

theorem mem_bodies : g ∈ bodies prev s ↔ FencedAt s g := by
  unfold bodies FencedAt
  simp only [List.mem_flatMap, List.mem_map, Prod.exists, mem_ends_lazy, mem_ends_tail]
  constructor
  · rintro ⟨body, later, ⟨rfl, _⟩, taken, rest, ⟨space, hspace, rfl, rfl⟩, rfl⟩
    exact ⟨space, rest, hspace, rfl⟩
  · rintro ⟨space, rest, hspace, rfl⟩
    exact ⟨g, space ++ (fence ++ rest), ⟨rfl, by simp, Nat.zero_le _⟩, space ++ fence, rest,
      ⟨space, hspace, rfl, rfl⟩, rfl⟩

/-- The group is the shortest text that a fence may follow. -/
theorem bodies_head (h : (bodies prev s).head? = some g) :
    FencedAt s g ∧ ∀ other, FencedAt s other → g.length ≤ other.length := by
  refine ⟨mem_bodies.mp (List.mem_of_head? h), fun other hother => ?_⟩
  have hmem := (@mem_bodies prev s other).mpr hother
  unfold bodies at h hmem
  rw [List.head?_flatMap, List.findSome?_eq_some_iff] at h
  obtain ⟨front, split, back, hsplits, hsplit, hfront⟩ := h
  obtain ⟨later, hlater, hbody⟩ := List.mem_flatMap.mp hmem
  have hg : split.1 = g := by
    rw [List.head?_map] at hsplit
    obtain ⟨_, _, hg⟩ := Option.map_eq_some_iff.mp hsplit
    exact hg
  have hlaterBody : later.1 = other := by
    obtain ⟨_, _, hother⟩ := List.mem_map.mp hbody
    exact hother
  have hsorted : (ends noWord (lazy (fun _ => true) 0) prev s).Pairwise
      fun a b => a.1.length < b.1.length := (runs_sorted _ s).filter _
  rw [hsplits] at hlater hsorted
  rw [← hg, ← hlaterBody]
  rcases List.mem_append.mp hlater with hbefore | hafter
  · have hnone := hfront later hbefore
    rw [List.head?_eq_none_iff] at hnone
    rw [hnone] at hbody
    cases hbody
  · rcases List.mem_cons.mp hafter with rfl | hafter
    · exact le_refl _
    · have hrest := (List.pairwise_append.mp hsorted).2.1
      exact le_of_lt ((List.pairwise_cons.mp hrest).1 later hafter)

theorem fencedAt_of_infix (h : fence <:+: s) : ∃ g, FencedAt s g := by
  obtain ⟨front, rest, rfl⟩ := h
  exact ⟨front, [], rest, by simp, by simp⟩

theorem FencedAt.infix (h : FencedAt s g) : fence <:+: s := by
  obtain ⟨space, rest, _, rfl⟩ := h
  exact ⟨g ++ space, rest, by simp⟩

theorem bodies_head_plain (h : (bodies prev s).head? = some g) : ¬fence <:+: g := by
  obtain ⟨⟨space, rest, _, rfl⟩, hleast⟩ := bodies_head h
  rintro ⟨front, back, rfl⟩
  have hshort := hleast front ⟨[], back ++ (space ++ (fence ++ rest)), by simp,
    by simp⟩
  simp [fence] at hshort

/-- Two fences, one behind the other. -/
def TwoFences (s : List Char) : Prop :=
  ∃ front between rest, s = front ++ (fence ++ (between ++ (fence ++ rest)))

theorem groupsAt_head (h : (groupsAt prev s).head? = some g) : ∃ lead,
    lead ∈ ends noWord fenceLead prev s ∧ (bodies (before prev lead.1) lead.2).head? = some g := by
  unfold groupsAt at h
  rw [List.head?_flatMap, List.findSome?_eq_some_iff] at h
  obtain ⟨front, lead, back, hleads, hlead, _⟩ := h
  refine ⟨lead, ?_, hlead⟩
  rw [hleads]
  exact List.mem_append_right _ List.mem_cons_self

theorem groupsAt_ne_nil (h : fence <:+: u) : groupsAt prev (fence ++ u) ≠ [] := by
  obtain ⟨g, hg⟩ := fencedAt_of_infix h
  have hlead : (fence, u) ∈ ends noWord fenceLead prev (fence ++ u) :=
    mem_ends_lead.mpr ⟨[], [], .inr rfl, by simp, by simp, rfl⟩
  have hgroup : g ∈ groupsAt prev (fence ++ u) :=
    List.mem_flatMap.mpr ⟨_, hlead, mem_bodies.mpr hg⟩
  exact List.ne_nil_of_mem hgroup

/-- What the search finds: a fence, white space behind it and perhaps a tag, and the group. -/
theorem fenceGroup_some (h : fenceGroup prev s = some g) : ∃ front plain later,
    s = front ++ (fence ++ (plain ++ later)) ∧ (∀ c ∈ plain, c ≠ '"' ∧ c ≠ '\\') ∧
      FencedAt later g ∧ ¬fence <:+: g := by
  have found : ∀ {prev s}, (groupsAt prev s).head? = some g → ∃ plain later,
      s = fence ++ (plain ++ later) ∧ (∀ c ∈ plain, c ≠ '"' ∧ c ≠ '\\') ∧ FencedAt later g ∧
        ¬fence <:+: g := by
    intro prev s h
    obtain ⟨⟨taken, later⟩, hlead, hbody⟩ := groupsAt_head h
    obtain ⟨tag, space, htag, hspace, rfl, rfl⟩ := mem_ends_lead.mp hlead
    refine ⟨tag ++ space, later, by simp, fun c hc => ?_, (bodies_head hbody).1,
      bodies_head_plain hbody⟩
    rcases List.mem_append.mp hc with hc | hc
    · rcases htag with rfl | rfl
      · constructor <;> rintro rfl <;> exact absurd hc (by decide)
      · cases hc
    · constructor <;> rintro rfl <;> exact absurd (hspace _ hc) (by decide)
  induction s generalizing prev with
  | nil =>
    obtain ⟨plain, later, hs, hrest⟩ := found h
    exact ⟨[], plain, later, hs, hrest⟩
  | cons c s ih =>
    rw [fenceGroup, Option.or_eq_some_iff] at h
    rcases h with h | ⟨_, h⟩
    · obtain ⟨plain, later, hs, hrest⟩ := found h
      exact ⟨[], plain, later, hs, hrest⟩
    · obtain ⟨front, plain, later, rfl, hrest⟩ := ih h
      exact ⟨c :: front, plain, later, rfl, hrest⟩

theorem fenceGroup_none_iff : fenceGroup prev s = none ↔ ¬TwoFences s := by
  constructor
  · rintro h ⟨front, between, rest, rfl⟩
    have hfence : fence <:+: between ++ (fence ++ rest) := ⟨between, rest, by simp⟩
    induction front generalizing prev with
    | nil =>
      have hne := @groupsAt_ne_nil prev _ hfence
      rw [List.nil_append] at h
      change fenceGroup prev ('\x60' :: ('\x60' :: '\x60' :: (between ++ (fence ++ rest)))) = none at h
      rw [fenceGroup, Option.or_eq_none_iff] at h
      exact hne (List.head?_eq_none_iff.mp h.1)
    | cons c front ih =>
      rw [List.cons_append, fenceGroup, Option.or_eq_none_iff] at h
      exact ih h.2
  · intro h
    cases hg : fenceGroup prev s with
    | none => rfl
    | some g =>
      obtain ⟨front, plain, later, rfl, _, ⟨space, rest, _, rfl⟩, _⟩ := fenceGroup_some hg
      exact absurd ⟨front, plain ++ (g ++ space), rest, by simp⟩ h

theorem head_ends_seq {first second : Pattern} {t later : List Char}
    (hfirst : (ends noWord first prev s).head? = some (taken, t))
    (hsecond : (ends noWord second (before prev taken) t).head? = some (later, rest)) :
    (ends noWord (seq first second) prev s).head? = some (taken ++ later, rest) := by
  obtain ⟨others, hothers⟩ := List.head?_eq_some_iff.mp hfirst
  rw [ends, hothers, List.flatMap_cons, List.head?_append, List.head?_map, hsecond]
  rfl

theorem head_ends_literal (word : List Char) :
    (ends noWord (literal word) prev (word ++ s)).head? = some (word, s) := by
  have hmem : (word, s) ∈ ends noWord (literal word) prev (word ++ s) :=
    mem_ends_literal.mpr ⟨rfl, rfl⟩
  cases hends : ends noWord (literal word) prev (word ++ s) with
  | nil =>
    rw [hends] at hmem
    cases hmem
  | cons split others =>
    have hsplit : split ∈ ends noWord (literal word) prev (word ++ s) := by
      rw [hends]
      exact List.mem_cons_self
    obtain ⟨taken, rest⟩ := split
    obtain ⟨rfl, hrest⟩ := mem_ends_literal.mp hsplit
    rw [List.head?_cons, List.append_cancel_left hrest]

theorem head_ends_greedy {p : Char → Bool} :
    (ends noWord (greedy p 0) prev s).head? = some (s.takeWhile p, s.dropWhile p) := by
  have hall : ((runs p s).filter fun split => 0 ≤ split.1.length) = runs p s := by
    rw [List.filter_eq_self]
    simp
  rw [ends, hall, List.head?_reverse, runs_getLast]

theorem head_ends_lead {tag space : List Char} {c : Char}
    (htag : tag = ['j', 's', 'o', 'n'] ∨ tag = []) (hspace : ∀ x ∈ space, isSpace x = true)
    (hc : isSpace c = false) (hj : c ≠ 'j') :
    (ends noWord fenceLead prev (fence ++ (tag ++ (space ++ c :: s)))).head? =
      some (fence ++ (tag ++ space), c :: s) := by
  have hgreedy : ∀ prev, (ends noWord (all [greedy isSpace 0]) prev (space ++ c :: s)).head? =
      some (space, c :: s) := by
    intro prev
    have htake : (space ++ c :: s).takeWhile isSpace = space ∧
        (space ++ c :: s).dropWhile isSpace = c :: s := by
      rw [List.takeWhile_append_of_pos hspace, List.dropWhile_append_of_pos hspace,
        List.takeWhile_cons_of_neg (by simp [hc]), List.dropWhile_cons_of_neg (by simp [hc])]
      simp
    have hhead := @head_ends_greedy prev (space ++ c :: s) isSpace
    rw [htake.1, htake.2] at hhead
    have hempty : (ends noWord (all []) (before prev space) (c :: s)).head? = some ([], c :: s) := rfl
    have hseq := head_ends_seq hhead hempty
    rw [List.append_nil] at hseq
    exact hseq
  have hoptional : ∀ prev, (ends noWord (Pattern.optional (literal ['j', 's', 'o', 'n'])) prev
      (tag ++ (space ++ c :: s))).head? = some (tag, space ++ c :: s) := by
    intro prev
    unfold Pattern.optional
    rw [ends, List.head?_append]
    rcases htag with rfl | rfl
    · rw [head_ends_literal]
      rfl
    · have hnone : ends noWord (literal ['j', 's', 'o', 'n']) prev ([] ++ (space ++ c :: s)) = [] := by
        rw [List.eq_nil_iff_forall_not_mem]
        rintro ⟨taken, rest⟩ hmem
        obtain ⟨_, hword⟩ := mem_ends_literal.mp hmem
        cases space with
        | nil => exact hj (List.cons.inj hword).1
        | cons x space =>
          have hx := hspace x List.mem_cons_self
          rw [(List.cons.inj hword).1] at hx
          exact absurd hx (by decide)
      rw [hnone]
      rfl
  exact head_ends_seq (head_ends_literal fence) (head_ends_seq (hoptional _) (hgreedy _))

end Matching

section Strip

variable {front back text : List Char}

theorem plain_of_spaces (h : ∀ c ∈ text, isSpace c = true) : ∀ c ∈ text, c ≠ '"' ∧ c ≠ '\\' := by
  intro c hc
  constructor <;> rintro rfl <;> exact absurd (h _ hc) (by decide)

theorem strip_parts (text : List Char) : ∃ front back, (∀ c ∈ front, isSpace c = true) ∧
    (∀ c ∈ back, isSpace c = true) ∧
      text = front ++ ((strip (String.ofList text)).toList ++ back) := by
  refine ⟨text.takeWhile isSpace, (text.dropWhile isSpace).rtakeWhile isSpace,
    fun c => List.mem_takeWhile_imp, fun c => List.mem_rtakeWhile_imp, ?_⟩
  unfold strip
  rw [String.toList_ofList, String.toList_ofList, List.rdropWhile_append_rtakeWhile,
    List.takeWhile_append_dropWhile]

theorem strip_surrounded (hfront : ∀ c ∈ front, isSpace c = true)
    (hback : ∀ c ∈ back, isSpace c = true) {first last : Char}
    (hfirst : text.head? = some first) (hlast : text.getLast? = some last)
    (vfirst : isSpace first = false) (vlast : isSpace last = false) :
    strip (String.ofList (front ++ (text ++ back))) = String.ofList text := by
  obtain ⟨rest, rfl⟩ := List.head?_eq_some_iff.mp hfirst
  obtain ⟨start, hstart⟩ := List.getLast?_eq_some_iff.mp hlast
  unfold strip
  rw [String.toList_ofList, List.dropWhile_append_of_pos hfront, List.cons_append,
    List.dropWhile_cons_of_neg (by simp [vfirst]), ← List.cons_append, hstart]
  congr 1
  unfold List.rdropWhile
  rw [List.reverse_append, List.dropWhile_append_of_pos (fun c hc => hback c (by simpa using hc)),
    List.reverse_append, List.reverse_singleton, List.singleton_append,
    List.dropWhile_cons_of_neg (by simp [vlast])]
  simp

end Strip

section Objects

variable {Data : Type} {json : JsonModule Data} (lawful : json.Lawful) {d : Data} {t g : List Char}

theorem parse_of_group {text : String} (h : fenceGroup none (strip text).toList = some g) :
    parseJsonObject json text = .ok d →
      json.loads (strip (String.ofList g)).toList = some d := by
  intro hparse
  unfold parseJsonObject at hparse
  dsimp only at hparse
  rw [h] at hparse
  dsimp only at hparse
  cases hloads : json.loads (strip (String.ofList g)).toList with
  | none =>
    rw [hloads] at hparse
    cases hparse
  | some parsed =>
    rw [hloads] at hparse
    dsimp only at hparse
    split at hparse
    · cases hparse
      rfl
    · cases hparse

theorem parse_of_loads {text : String} {stripped : List Char}
    (h : (match fenceGroup none (strip text).toList with
      | some group => strip (String.ofList group)
      | none => strip text).toList = stripped)
    (loads : json.loads stripped = some d) (dict : json.isDict d = true) :
    parseJsonObject json text = .ok d := by
  unfold parseJsonObject
  dsimp only
  rw [h, loads]
  dsimp only
  rw [if_pos dict]

include lawful in
/-- The data of a text with a fence is not the data of a part between two fences: that part has no
backslash, so its literals would have the fence as it stands. -/
theorem no_data_between {front plain g rest : List Char} (dumps : json.Dumps d t)
    (ht : t = front ++ (fence ++ (plain ++ (g ++ rest))))
    (hplain : ∀ c ∈ plain, c ≠ '"' ∧ c ≠ '\\') (hg : ¬fence <:+: g) :
    json.loads (strip (String.ofList g)).toList ≠ some d := by
  intro hloads
  obtain ⟨before, after, hbefore, _, hparts⟩ := strip_parts g
  generalize (strip (String.ofList g)).toList = inner at hloads hparts
  obtain ⟨literals, hlexes, hstrings⟩ := lawful.writes dumps
  obtain ⟨others, hothers, hread⟩ := lawful.reads hloads
  have hinside : Sound .inside inner := by
    have hsound := (lexes_sound hlexes).1
    rw [ht, sound_append] at hsound
    have hmode : Mode.outside.run front = .inside := inside_of_backtick hsound.2
    have hrest : Sound .inside (plain ++ (g ++ rest)) := by
      have h := hsound.2
      rw [hmode, sound_append] at h
      exact h.2
    rw [sound_append, (run_plain hplain).1, sound_append] at hrest
    have hinner := hrest.2.1
    rw [hparts, sound_append, (run_plain (plain_of_spaces hbefore)).1, sound_append] at hinner
    exact hinner.2.1
  have hbackslash := no_backslash hinside (lexes_sound hothers).1
  have hfence : fence <:+: t := ⟨front, plain ++ (g ++ rest), by rw [ht]; simp⟩
  obtain ⟨literal, hliteral, hraw⟩ := lexes_fence hlexes hfence
  have hspelled := fence_spelled (lexes_mem hlexes hliteral).1 hraw
  obtain ⟨raw, hmem⟩ := hread literal.2 (hstrings literal hliteral)
  obtain ⟨hspells, hin⟩ := lexes_mem hothers hmem
  have hplain : '\\' ∉ raw := fun h => hbackslash (hin.subset h)
  rw [spells_plain hspells hplain] at hspelled
  refine hg ((hspelled.trans hin).trans ?_)
  rw [hparts]
  exact ⟨before, after, by simp⟩

include lawful in
theorem parse_bare_iff {before after : List Char} (dumps : json.Dumps d t)
    (dict : json.isDict d = true) (hbefore : ∀ c ∈ before, isSpace c = true)
    (hafter : ∀ c ∈ after, isSpace c = true) :
    parseJsonObject json (String.ofList (before ++ (t ++ after))) = .ok d ↔ ¬TwoFences t := by
  obtain ⟨inner, hbraces⟩ := lawful.braces dumps dict
  have hlast : t.getLast? = some '\x7d' := by
    rw [hbraces, ← List.cons_append, List.getLast?_concat]
  have hstrip : strip (String.ofList (before ++ (t ++ after))) = String.ofList t :=
    @strip_surrounded _ _ _ hbefore hafter '\x7b' '\x7d' (by rw [hbraces]; rfl) hlast (by decide)
      (by decide)
  rw [← @fenceGroup_none_iff none]
  constructor
  · intro hparse
    cases hgroup : fenceGroup none t with
    | none => rfl
    | some g =>
      obtain ⟨front, plain, later, ht, hplain, ⟨space, rest, _, rfl⟩, hg⟩ := fenceGroup_some hgroup
      have hfound : fenceGroup none (strip (String.ofList (before ++ (t ++ after)))).toList =
          some g := by
        rw [hstrip, String.toList_ofList, hgroup]
      exact absurd (parse_of_group hfound hparse) (no_data_between lawful dumps ht hplain hg)
  · intro hgroup
    refine parse_of_loads ?_ (lawful.inverts dumps) dict
    rw [hstrip, String.toList_ofList, hgroup, String.toList_ofList]

theorem fence_within {start space rest more : List Char} (hspace : ∀ c ∈ space, isSpace c = true)
    (h : (start ++ ['\x7d']) ++ more = space ++ (fence ++ rest)) :
    ∃ later, start ++ ['\x7d'] = space ++ (fence ++ later) := by
  rw [← List.append_assoc space] at h
  rcases List.append_eq_append_iff.mp h with ⟨later, hlater, _⟩ | ⟨later, hlater, _⟩
  · have hmem : '\x7d' ∈ space ++ fence := by
      rw [hlater]
      simp
    rcases List.mem_append.mp hmem with hmem | hmem
    · exact absurd (hspace _ hmem) (by decide)
    · exact absurd hmem (by decide)
  · exact ⟨later, by rw [hlater, List.append_assoc]⟩

theorem group_of_block {inner tail : List Char} (ht : t = '\x7b' :: (inner ++ ['\x7d']))
    (hg : FencedAt (t ++ tail) g) (hleast : ∀ other, FencedAt (t ++ tail) other →
      g.length ≤ other.length) (block : FencedAt (t ++ tail) t) : g = t ∨ FencedAt t g := by
  obtain ⟨space, rest, hspace, hsplit⟩ := hg
  have hshort := hleast t block
  rcases List.append_eq_append_iff.mp hsplit with ⟨more, rfl, _⟩ | ⟨more, hmore, hrest⟩
  · left
    rw [List.length_append] at hshort
    have : more = [] := List.length_eq_zero_iff.mp (by omega)
    rw [this, List.append_nil]
  · rcases List.eq_nil_or_concat more with rfl | ⟨start, c, hc⟩
    · left
      rw [hmore, List.append_nil]
    · right
      rw [List.concat_eq_append] at hc
      have hlast : c = '\x7d' := by
        have h := congrArg List.getLast? hmore
        rw [ht, hc, ← List.cons_append, List.getLast?_concat, ← List.append_assoc,
          List.getLast?_concat] at h
        exact (Option.some.inj h).symm
      rw [hc, hlast] at hmore hrest
      obtain ⟨later, hlater⟩ := fence_within hspace hrest.symm
      exact ⟨space, later, hspace, by rw [hmore, hlater]⟩

include lawful in
theorem no_data_before (dumps : json.Dumps d t) (hg : FencedAt t g) :
    json.loads (strip (String.ofList g)).toList ≠ some d := by
  intro hloads
  obtain ⟨before, after, hbefore, hafter, hparts⟩ := strip_parts g
  generalize (strip (String.ofList g)).toList = inner at hloads hparts
  obtain ⟨literals, hlexes, _⟩ := lawful.writes dumps
  obtain ⟨others, hothers, _⟩ := lawful.reads hloads
  obtain ⟨space, rest, hspace, ht⟩ := hg
  have hsound := (lexes_sound hlexes).1
  rw [ht, ← List.append_assoc, sound_append] at hsound
  have hinside : Mode.outside.run (g ++ space) = .inside := inside_of_backtick hsound.2
  have houtside : Mode.outside.run (g ++ space) = .outside := by
    rw [run_append, hparts, run_append, run_append, (run_plain (plain_of_spaces hbefore)).2,
      (lexes_sound hothers).2, (run_plain (plain_of_spaces hafter)).2,
      (run_plain (plain_of_spaces hspace)).2]
  rw [hinside] at houtside
  cases houtside

include lawful in
theorem parse_fenced_iff {front tag lead trail back : List Char} (dumps : json.Dumps d t)
    (dict : json.isDict d = true) (htag : tag = ['j', 's', 'o', 'n'] ∨ tag = [])
    (hfront : ∀ c ∈ front, isSpace c = true) (hlead : ∀ c ∈ lead, isSpace c = true)
    (htrail : ∀ c ∈ trail, isSpace c = true) (hback : ∀ c ∈ back, isSpace c = true) :
    parseJsonObject json (String.ofList
      (front ++ ((fence ++ (tag ++ (lead ++ (t ++ (trail ++ fence))))) ++ back))) = .ok d ↔
      ¬fence <:+: t := by
  obtain ⟨inner, hbraces⟩ := lawful.braces dumps dict
  have hlast : (fence ++ (tag ++ (lead ++ (t ++ (trail ++ fence))))).getLast? = some '\x60' := by
    have hend : fence ++ (tag ++ (lead ++ (t ++ (trail ++ fence)))) =
        (fence ++ (tag ++ (lead ++ (t ++ (trail ++ ['\x60', '\x60']))))) ++ ['\x60'] := by
      simp [fence]
    rw [hend, List.getLast?_concat]
  have hstrip : strip (String.ofList
      (front ++ ((fence ++ (tag ++ (lead ++ (t ++ (trail ++ fence))))) ++ back))) =
        String.ofList (fence ++ (tag ++ (lead ++ (t ++ (trail ++ fence))))) :=
    @strip_surrounded _ _ _ hfront hback '\x60' '\x60' rfl hlast (by decide) (by decide)
  have hblock : FencedAt (t ++ (trail ++ fence)) t := ⟨trail, [], htrail, by simp⟩
  obtain ⟨g, hgroup, hhead⟩ : ∃ g,
      fenceGroup none (fence ++ (tag ++ (lead ++ (t ++ (trail ++ fence))))) = some g ∧
        (bodies (before none (fence ++ (tag ++ lead))) (t ++ (trail ++ fence))).head? = some g := by
    have hlead := @head_ends_lead none (inner ++ ['\x7d'] ++ (trail ++ fence)) tag lead '\x7b' htag
      hlead (by decide) (by decide)
    rw [← List.cons_append, ← hbraces] at hlead
    obtain ⟨others, hothers⟩ := List.head?_eq_some_iff.mp hlead
    obtain ⟨g, more, hbodies⟩ := List.exists_cons_of_ne_nil (List.ne_nil_of_mem
      ((@mem_bodies (before none (fence ++ (tag ++ lead))) _ _).mpr hblock))
    refine ⟨g, ?_, by rw [hbodies, List.head?_cons]⟩
    have hgroups : (groupsAt none (fence ++ (tag ++ (lead ++ (t ++ (trail ++ fence)))))).head? =
        some g := by
      unfold groupsAt
      rw [hothers, List.flatMap_cons, hbodies]
      rfl
    change (groupsAt none (fence ++ (tag ++ (lead ++ (t ++ (trail ++ fence)))))).head?.or _ = some g
    rw [hgroups]
    rfl
  obtain ⟨hg, hleast⟩ := bodies_head hhead
  have hfound : fenceGroup none (strip (String.ofList
      (front ++ ((fence ++ (tag ++ (lead ++ (t ++ (trail ++ fence))))) ++ back)))).toList =
        some g := by
    rw [hstrip, String.toList_ofList, hgroup]
  rcases group_of_block hbraces hg hleast hblock with rfl | hinside
  · refine iff_of_true (parse_of_loads ?_ (lawful.inverts dumps) dict) (bodies_head_plain hhead)
    have hself := @strip_surrounded [] [] g (by simp) (by simp) '\x7b' '\x7d'
      (by rw [hbraces]; rfl) (by rw [hbraces, ← List.cons_append, List.getLast?_concat]) (by decide)
      (by decide)
    rw [List.append_nil, List.nil_append] at hself
    rw [hfound]
    dsimp only
    rw [hself, String.toList_ofList]
  · refine iff_of_false (fun hparse => ?_) (not_not.mpr hinside.infix)
    exact no_data_before lawful dumps hinside (parse_of_group hfound hparse)

end Objects

/-- A rendering of an object reads back exactly when it has no fence that the search can take: bare
no two of them, and in a fenced block none. -/
theorem claude_json_iff {Data : Type} (json : JsonModule Data) (lawful : json.Lawful) (d : Data)
    (t : List Char) (dumps : json.Dumps d t) (dict : json.isDict d = true) :
    (∀ front back : List Char, (∀ c ∈ front, isSpace c = true) → (∀ c ∈ back, isSpace c = true) →
      (parseJsonObject json (String.ofList (front ++ (t ++ back))) = .ok d ↔ ¬TwoFences t)) ∧
    ∀ front tag lead trail back : List Char, (tag = ['j', 's', 'o', 'n'] ∨ tag = []) →
      (∀ c ∈ front, isSpace c = true) → (∀ c ∈ lead, isSpace c = true) →
      (∀ c ∈ trail, isSpace c = true) → (∀ c ∈ back, isSpace c = true) →
      (parseJsonObject json (String.ofList
        (front ++ ((fence ++ (tag ++ (lead ++ (t ++ (trail ++ fence))))) ++ back))) = .ok d ↔
          ¬fence <:+: t) :=
  ⟨fun _ _ => parse_bare_iff lawful dumps dict,
    fun _ _ _ _ _ htag => parse_fenced_iff lawful dumps dict htag⟩

/-- A fenced `x`. -/
def quotedBlock : List Char := fence ++ 'x' :: fence

/-- An object of one text. -/
def objectText (quoted : List Char) : List Char :=
  '\x7b' :: '"' :: (['a'] ++ '"' :: ':' :: ' ' :: '"' :: (quoted ++ '"' :: ['\x7d']))

def quotedText (d : Bool) : List Char := if d then quotedBlock else fence

/-- `json` on two objects: one that quotes a block of code, and one that quotes a fence. -/
def quotingJson : JsonModule Bool where
  loads text :=
    if text = objectText quotedBlock then some true
    else if text = objectText fence then some false
    else none
  isDict _ := true
  strings d := [['a'], quotedText d]
  Dumps d text := text = objectText (quotedText d)

theorem spells_self {raw : List Char} (h : ∀ c ∈ raw, c ≠ '"' ∧ c ≠ '\\') :
    JsonText.Spells raw raw := by
  induction raw with
  | nil => exact .nil
  | cons c raw ih =>
    obtain ⟨hquote, hbackslash⟩ := h c List.mem_cons_self
    exact .char hquote hbackslash (ih fun x hx => h x (List.mem_cons_of_mem _ hx))

theorem lexes_object {quoted : List Char} (h : ∀ c ∈ quoted, c ≠ '"' ∧ c ≠ '\\') :
    Lexes (objectText quoted) [(['a'], ['a']), (quoted, quoted)] := by
  have hkey : JsonText.Spells ['a'] ['a'] := spells_self (by simp)
  refine .outside (by decide) (by decide) (by decide) (.literal hkey ?_)
  refine .outside (by decide) (by decide) (by decide) ?_
  refine .outside (by decide) (by decide) (by decide) (.literal (spells_self h) ?_)
  exact .outside (by decide) (by decide) (by decide) .nil

theorem lexes_quoted (d : Bool) : Lexes (objectText (quotedText d))
    [(['a'], ['a']), (quotedText d, quotedText d)] := by
  have hplain : ((quotedText d).all fun c => c ≠ '"' ∧ c ≠ '\\') = true := by
    cases d <;> decide
  exact lexes_object fun c hc => of_decide_eq_true (List.all_eq_true.mp hplain c hc)

theorem quotingJson_lawful : quotingJson.Lawful where
  inverts := by
    intro d text h
    cases h
    cases d <;> rfl
  braces := by
    intro d text h _
    cases h
    exact ⟨'"' :: (['a'] ++ '"' :: ':' :: ' ' :: '"' :: (quotedText d ++ ['"'])), by
      simp [objectText]⟩
  writes := by
    intro d text h
    cases h
    exact ⟨_, lexes_quoted d, by simp [quotingJson]⟩
  reads := by
    intro d text h
    have htext : text = objectText (quotedText d) := by
      unfold quotingJson at h
      dsimp only at h
      split at h
      next hquoting =>
        cases h
        exact hquoting
      next =>
        split at h
        next hfence =>
          cases h
          exact hfence
        next => cases h
    rw [htext]
    exact ⟨_, lexes_quoted d, by simp [quotingJson]⟩

/-- An object with one fence in a string is read bare, between spaces, and not from a block of code
of its own. -/
theorem claude_json_iff_fence :
    parseJsonObject quotingJson (String.ofList ([' '] ++ (objectText fence ++ ['\n']))) =
        .ok false ∧
      parseJsonObject quotingJson (String.ofList ([] ++ ((fence ++ (['j', 's', 'o', 'n'] ++
        (['\n'] ++ (objectText fence ++ (['\n'] ++ fence))))) ++ []))) ≠ .ok false := by
  obtain ⟨bare, fenced⟩ :=
    claude_json_iff quotingJson quotingJson_lawful false (objectText fence) rfl rfl
  constructor
  · refine (bare [' '] ['\n'] (by simp [isSpace]) (by simp [isSpace])).mpr ?_
    rintro ⟨front, between, rest, h⟩
    have hcount := congrArg (List.count '\x60') h
    simp [objectText, fence] at hcount
    omega
  · refine fun h => (fenced [] ['j', 's', 'o', 'n'] ['\n'] ['\n'] [] (.inl rfl) (by simp)
      (by simp [isSpace]) (by simp [isSpace]) (by simp)).mp h ?_
    exact ⟨['\x7b', '"', 'a', '"', ':', ' ', '"'], ['"', '\x7d'], by simp [objectText]⟩

/-- A quoted block of code is taken for the answer. -/
theorem quoted_block_not_read : quotingJson.Dumps true (objectText quotedBlock) ∧
    quotingJson.isDict true = true ∧
    parseJsonObject quotingJson (String.ofList (objectText quotedBlock)) =
      .error (.invalid "Claude response was not valid JSON.") := by
  refine ⟨rfl, rfl, ?_⟩
  decide +kernel

end Aegis
