import Aegis.AuditLog
import Aegis.StepPath

namespace Aegis

open StepPath

/-- A row of the in-process log, with whether the log's latest hash was still the one its
invocation had read when it was appended. -/
structure ChainedRow where
  entry : AuditEntry
  onLatest : Bool

structure ChainState where
  log : List ChainedRow
  /-- The hash each invocation in flight has read. -/
  reading : Nat → Option String
  /-- The rows drained into the open transaction. -/
  batch : List ChainedRow
  /-- The rows of `audit_log`, in append order. -/
  committed : AuditLog

def ChainState.entries (s : ChainState) : AuditLog := s.log.map ChainedRow.entry

/-- A worker process that has just started on the committed log. -/
def ChainState.fresh (committed : AuditLog) : ChainState := ⟨[], fun _ => none, [], committed⟩

inductive ChainAction where
  | read
  | append (request : ToolInvokeRequest) (decision : GatewayDecision) (entryId : Uuid)
      (now : Instant)
  | abandon
  | drain
  | commit
  | rollback
  | restart

/-- One step of the worker. `record_decision` reads the latest hash and appends later; the log is
drained once the graph has returned, so no invocation is in flight then. -/
inductive ChainStep (digest : Value → Digest) (redact : String → RedactionResult) :
    ChainState → Nat × ChainAction → ChainState → Prop
  | read {s i} : s.reading i = none →
      ChainStep digest redact s (i, .read)
        { s with reading := Function.update s.reading i (some (latestHash s.entries)) }
  | append {s i hash request decision entryId now entry} : s.reading i = some hash →
      buildEntry digest redact request decision hash entryId now = .ok entry →
      ChainStep digest redact s (i, .append request decision entryId now)
        { s with
          reading := Function.update s.reading i none
          log := s.log ++ [⟨entry, hash = latestHash s.entries⟩] }
  | abandon {s i} : ChainStep digest redact s (i, .abandon)
      { s with reading := Function.update s.reading i none }
  | drain {s i} : (∀ j, s.reading j = none) → s.batch = [] →
      ChainStep digest redact s (i, .drain) { s with log := [], batch := s.log }
  | commit {s i} : ChainStep digest redact s (i, .commit)
      { s with batch := [], committed := s.committed ++ s.batch.map ChainedRow.entry }
  | rollback {s i} : ChainStep digest redact s (i, .rollback) { s with batch := [] }
  | restart {s i} : ChainStep digest redact s (i, .restart) (ChainState.fresh s.committed)

/-- The log is one chain: every row holds the hash of the row just before it, the first one the
genesis hash. -/
def OneChain (log : AuditLog) : Prop :=
  ∀ before entry after, log = before ++ entry :: after → entry.prevHash.text = latestHash before

/-- A commit of drained rows finds an `audit_log` without rows to follow, and each of its rows was
appended while the log's latest hash was the one it had read. -/
def ChainedCommit (s : ChainState) (label : Nat × ChainAction) : Prop :=
  label.2 = .commit → s.batch ≠ [] →
    latestHash s.committed = Digest.genesis.text ∧ ∀ row ∈ s.batch, row.onLatest = true

/-- The rows record truly whether they continue the rows before them. -/
def RowsMarked (rows : List ChainedRow) : Prop :=
  ∀ before row after, rows = before ++ row :: after →
    (row.onLatest = true ↔ row.entry.prevHash.text = latestHash (before.map ChainedRow.entry))

/-- Every hash that is read, and the first row of the log and of a batch, goes back to the
genesis hash of an empty log. -/
structure ChainInv (s : ChainState) : Prop where
  logMarked : RowsMarked s.log
  batchMarked : RowsMarked s.batch
  readHash : ∀ i hash, s.reading i = some hash → ∃ log, hash = latestHash log
  readEmpty : s.log = [] → ∀ i hash, s.reading i = some hash → hash = Digest.genesis.text
  logStart : ∀ row rest, s.log = row :: rest → row.entry.prevHash.text = Digest.genesis.text
  batchStart : ∀ row rest, s.batch = row :: rest → row.entry.prevHash.text = Digest.genesis.text

theorem latestHash_append_of_ne {log rest : AuditLog} (h : rest ≠ []) :
    latestHash (log ++ rest) = latestHash rest := by
  unfold latestHash
  rw [List.getLast?_append_of_ne_nil log h]

theorem append_split {α : Type} {xs ys before after : List α} {x : α}
    (h : xs ++ ys = before ++ x :: after) :
    (∃ rest, xs = before ++ x :: rest ∧ after = rest ++ ys) ∨
      ∃ first, before = xs ++ first ∧ ys = first ++ x :: after := by
  rcases List.append_eq_append_iff.mp h with ⟨first, hbefore, hys⟩ | ⟨rest, hxs, hrest⟩
  · exact Or.inr ⟨first, hbefore, hys⟩
  · cases rest with
    | nil =>
      refine Or.inr ⟨[], by simpa using hxs.symm, ?_⟩
      simpa using hrest.symm
    | cons y rest =>
      obtain ⟨rfl, rfl⟩ := List.cons.inj hrest
      exact Or.inl ⟨rest, hxs, rfl⟩

theorem rowsMarked_concat {rows : List ChainedRow} {row : ChainedRow} (h : RowsMarked rows)
    (hrow : row.onLatest = true ↔ row.entry.prevHash.text = latestHash (rows.map ChainedRow.entry)) :
    RowsMarked (rows ++ [row]) := by
  intro before other after hsplit
  rcases append_split hsplit with ⟨rest, hrows, _⟩ | ⟨first, hbefore, hlast⟩
  · exact h before other rest hrows
  · cases first with
    | nil =>
      obtain ⟨rfl, _⟩ := List.cons.inj hlast
      rw [hbefore, List.append_nil]
      exact hrow
    | cons other first => simp at hlast

theorem oneChain_entries_iff {rows : List ChainedRow} (h : RowsMarked rows) :
    OneChain (rows.map ChainedRow.entry) ↔ ∀ row ∈ rows, row.onLatest = true := by
  constructor
  · intro hchain row hrow
    obtain ⟨before, after, hsplit⟩ := List.append_of_mem hrow
    refine (h before row after hsplit).mpr ?_
    exact hchain _ _ (after.map ChainedRow.entry) (by rw [hsplit]; simp)
  · intro hall before entry after hsplit
    obtain ⟨first, rest, hrows, rfl, hrest⟩ := List.map_eq_append_iff.mp hsplit
    obtain ⟨row, last, hlast, rfl, _⟩ := List.map_eq_cons_iff.mp hrest
    rw [hlast] at hrows
    exact (h first row last hrows).mp (hall row (by simp [hrows]))

/-- A batch that starts at the genesis hash extends a chain exactly when there is nothing to
follow and the batch is a chain itself. -/
theorem oneChain_commit_iff {log : AuditLog} {rows : List ChainedRow} (h : OneChain log)
    (marked : RowsMarked rows) (hne : rows ≠ [])
    (start : ∀ row rest, rows = row :: rest → row.entry.prevHash.text = Digest.genesis.text) :
    OneChain (log ++ rows.map ChainedRow.entry) ↔
      latestHash log = Digest.genesis.text ∧ ∀ row ∈ rows, row.onLatest = true := by
  rw [← oneChain_entries_iff marked]
  have follow : latestHash log = Digest.genesis.text → ∀ before : AuditLog,
      latestHash (log ++ before) = latestHash before := by
    intro hlog before
    by_cases hbefore : before = []
    · rw [hbefore, List.append_nil, hlog]
      rfl
    · exact latestHash_append_of_ne hbefore
  constructor
  · intro hall
    obtain ⟨row, rest, hrows⟩ := List.exists_cons_of_ne_nil hne
    have hlog : latestHash log = Digest.genesis.text := by
      rw [← start row rest hrows]
      exact (hall log row.entry (rest.map ChainedRow.entry) (by rw [hrows]; rfl)).symm
    refine ⟨hlog, fun before entry after hsplit => ?_⟩
    rw [← follow hlog before]
    exact hall (log ++ before) entry after (by rw [hsplit, List.append_assoc])
  · rintro ⟨hlog, hbatch⟩ before entry after hsplit
    rcases append_split hsplit with ⟨rest, hold, _⟩ | ⟨first, rfl, hnew⟩
    · exact h before entry rest hold
    · rw [follow hlog first]
      exact hbatch first entry after hnew

variable {digest : Value → Digest} {redact : String → RedactionResult}

theorem rowsMarked_nil : RowsMarked [] := by
  intro before row after hsplit
  simp at hsplit

theorem fresh_inv (committed : AuditLog) : ChainInv (ChainState.fresh committed) where
  logMarked := rowsMarked_nil
  batchMarked := rowsMarked_nil
  readHash := by simp [ChainState.fresh]
  readEmpty := by simp [ChainState.fresh]
  logStart := by simp [ChainState.fresh]
  batchStart := by simp [ChainState.fresh]

theorem chainStep_keeps_inv {s t : ChainState} {label : Nat × ChainAction} (inv : ChainInv s)
    (h : ChainStep digest redact s label t) : ChainInv t := by
  have kept : ∀ {i j hash}, Function.update s.reading i none j = some hash →
      s.reading j = some hash := by
    intro i j hash hread
    by_cases hj : j = i
    · simp [hj] at hread
    · simpa [hj] using hread
  cases h with
  | @read i hfree =>
    refine ⟨inv.logMarked, inv.batchMarked, ?_, ?_, inv.logStart, inv.batchStart⟩
    · intro j hash hread
      by_cases hj : j = i
      · exact ⟨s.entries, by simpa [hj, eq_comm] using hread⟩
      · exact inv.readHash j hash (by simpa [hj] using hread)
    · intro hempty j hash hread
      by_cases hj : j = i
      · have hhash : hash = latestHash s.entries := by simpa [hj, eq_comm] using hread
        have hlog : s.log = [] := hempty
        rw [hhash, ChainState.entries, hlog]
        rfl
      · exact inv.readEmpty hempty j hash (by simpa [hj] using hread)
  | @append i hash request decision entryId now entry hread hbuild =>
    obtain ⟨old, rfl⟩ := inv.readHash i hash hread
    have hprev := (buildEntry_ok (latestHash_stripped old)
      (ne_empty_of_length (latestHash_length old)) hbuild).1
    refine ⟨rowsMarked_concat inv.logMarked ?_, inv.batchMarked, ?_, ?_, ?_, inv.batchStart⟩
    · dsimp only
      rw [hprev]
      exact decide_eq_true_iff
    · exact fun j other hother => inv.readHash j other (kept hother)
    · intro hempty
      simp at hempty
    · intro row rest hsplit
      cases hlog : s.log with
      | nil =>
        have hrow : (⟨entry, latestHash old = latestHash s.entries⟩ : ChainedRow) = row := by
          have hhead := List.cons.inj (by simpa [hlog] using hsplit)
          exact hhead.1
        rw [← hrow]
        exact hprev.trans (inv.readEmpty hlog i _ hread)
      | cons first others =>
        have hhead := List.cons.inj (by simpa [hlog] using hsplit)
        rw [← hhead.1]
        exact inv.logStart first others hlog
  | @abandon i =>
    exact ⟨inv.logMarked, inv.batchMarked, fun j hash hread => inv.readHash j hash (kept hread),
      fun hempty j hash hread => inv.readEmpty hempty j hash (kept hread), inv.logStart,
      inv.batchStart⟩
  | @drain i hidle hempty =>
    refine ⟨rowsMarked_nil, inv.logMarked, inv.readHash, ?_, by simp, inv.logStart⟩
    intro _ j hash hread
    rw [hidle j] at hread
    cases hread
  | commit => exact ⟨inv.logMarked, rowsMarked_nil, inv.readHash, inv.readEmpty, inv.logStart, by simp⟩
  | rollback => exact ⟨inv.logMarked, rowsMarked_nil, inv.readHash, inv.readEmpty, inv.logStart, by simp⟩
  | restart => exact fresh_inv s.committed

theorem chainStep_oneChain_iff {s t : ChainState} {label : Nat × ChainAction}
    (chain : OneChain s.committed) (inv : ChainInv s) (h : ChainStep digest redact s label t) :
    OneChain t.committed ↔ ChainedCommit s label := by
  cases h with
  | read _ => exact iff_of_true chain fun h => by cases h
  | append _ _ => exact iff_of_true chain fun h => by cases h
  | abandon => exact iff_of_true chain fun h => by cases h
  | drain _ _ => exact iff_of_true chain fun h => by cases h
  | rollback => exact iff_of_true chain fun h => by cases h
  | restart => exact iff_of_true chain fun h => by cases h
  | commit =>
    by_cases hbatch : s.batch = []
    · refine iff_of_true ?_ fun _ hne => absurd hbatch hne
      simpa [hbatch] using chain
    · rw [show _ ↔ _ from oneChain_commit_iff chain inv.batchMarked hbatch inv.batchStart]
      exact ⟨fun hok _ _ => hok, fun hok => hok rfl hbatch⟩

/-- The worker starts every drained batch at the genesis hash, and parallel invocations may read
one hash, so `audit_log` is one chain exactly as long as rows are committed to an empty log only
and each was appended on the hash it read. -/
theorem auditLog_oneChain_iff {committed : AuditLog}
    {path : List ((Nat × ChainAction) × ChainState)} (chain : OneChain committed)
    (run : Path (ChainStep digest redact) (ChainState.fresh committed) path) :
    (∀ u ∈ visited (ChainState.fresh committed) path, OneChain u.committed) ↔
      Meets ChainedCommit (ChainState.fresh committed) path := by
  have keep : ∀ s a t, OneChain s.committed → ChainInv s → ChainStep digest redact s a t →
      ChainInv t := fun _ _ _ _ hinv hstep => chainStep_keeps_inv hinv hstep
  exact always_iff_meets keep
    (fun _ _ _ hchain hinv hstep => chainStep_oneChain_iff hchain hinv hstep) run chain
    (fresh_inv committed)

def codeRequest : ToolInvokeRequest :=
  let incident : Token 64 := ⟨"9", by decide, by decide, by decide⟩
  AgentIdentity.code.request codeSearchTool [] incident none

def codeDenied : GatewayDecision :=
  GatewayDecision.deny "denied:default" (some .read) "search_code" "code" "9" false

theorem codeDenied_built (digest : Value → Digest) (redact : String → RedactionResult)
    (entryId : Uuid) (log : AuditLog) : ∃ entry,
    buildEntry digest redact codeRequest codeDenied (latestHash log) entryId 0 = .ok entry :=
  buildEntry_ok_iff.mpr (by decide)

/-- One handling with one gateway call, from an idle worker to its commit. -/
def oneCallHandling (committed : AuditLog) (entryId : Uuid) (entry : AuditEntry) :
    List ((Nat × ChainAction) × ChainState) :=
  let read := { ChainState.fresh committed with
    reading := Function.update (fun _ => none) 0 (some (latestHash [])) }
  let row : ChainedRow := ⟨entry, latestHash [] = latestHash []⟩
  let appended := { read with reading := Function.update read.reading 0 none, log := [row] }
  let drained := { appended with log := [], batch := [row] }
  [((0, .read), read), ((0, .append codeRequest codeDenied entryId 0), appended),
    ((0, .drain), drained),
    ((0, .commit), { drained with batch := [], committed := committed ++ [entry] })]

theorem reading_idle (hash : String) (j : Nat) :
    Function.update (Function.update (fun _ => none) 0 (some hash)) 0 none j =
      (none : Option String) := by
  simp

theorem oneCallHandling_path {entryId : Uuid} {entry : AuditEntry} (committed : AuditLog)
    (h : buildEntry digest redact codeRequest codeDenied (latestHash []) entryId 0 = .ok entry) :
    Path (ChainStep digest redact) (ChainState.fresh committed)
        (oneCallHandling committed entryId entry) ∧
      final (ChainState.fresh committed) (oneCallHandling committed entryId entry) =
        ChainState.fresh (committed ++ [entry]) := by
  constructor
  · refine Path.next (ChainStep.read rfl) (Path.next (ChainStep.append ?_ h)
      (Path.next (ChainStep.drain (reading_idle _) rfl) (Path.next ChainStep.commit Path.stop)))
    simp
  · have idle := funext (reading_idle (latestHash []))
    simp [oneCallHandling, final, ChainState.fresh]

/-- What a stand-in for SHA-256 makes of the characters of an id. -/
def idNumber (chars : List Char) : Nat :=
  chars.foldl (fun n c => (257 * n + c.toNat) % 16 ^ 63) 1 + 1

theorem idNumber_lt (chars : List Char) : idNumber chars < 16 ^ 64 := by
  have folded : ∀ (chars : List Char) (n : Nat), n < 16 ^ 63 →
      chars.foldl (fun n c => (257 * n + c.toNat) % 16 ^ 63) n < 16 ^ 63 := by
    intro chars
    induction chars with
    | nil => exact fun n hn => hn
    | cons c chars ih => exact fun n _ => ih _ (Nat.mod_lt _ (by norm_num))
  have := folded chars 1 (by norm_num)
  unfold idNumber
  omega

/-- A stand-in for SHA-256 that tells rows apart by their id. -/
def idDigest : Value → Digest
  | .obj fields =>
    match Fields.get fields "id" with
    | .str id => .ofNat (idNumber id.toList)
    | _ => .ofNat 1
  | _ => .ofNat 1

theorem idDigest_ne_genesis (body : Value) : (idDigest body).text ≠ Digest.genesis.text := by
  have small : ∀ n, 0 < n → n < 16 ^ 64 → (Digest.ofNat n).text ≠ Digest.genesis.text := by
    intro n hpos hlt heq
    have hchars : hexChars 64 n = hexChars 64 0 := String.ofList_injective heq
    have := hexChars_inj hlt (by norm_num) hchars
    omega
  have one := small 1 (by norm_num) (by norm_num)
  unfold idDigest
  split
  · split
    next id _ => exact small _ (Nat.succ_pos _) (idNumber_lt id.toList)
    · exact one
  · exact one

/-- One handling with two gateway calls, one after the other: the second row is appended on the
hash of the first. -/
theorem one_handling_one_chain : ∃ path first second,
    Path (ChainStep idDigest fun text => ⟨text, 0⟩) (ChainState.fresh []) path ∧
      (final (ChainState.fresh []) path).committed = [first, second] ∧
      second.prevHash.text = first.rowHash.text ∧
      ∀ u ∈ visited (ChainState.fresh []) path, OneChain u.committed := by
  obtain ⟨first, hfirst⟩ := codeDenied_built idDigest (fun text => ⟨text, 0⟩) 1 []
  obtain ⟨second, hsecond⟩ := codeDenied_built idDigest (fun text => ⟨text, 0⟩) 2 [first]
  have idle : ∀ (hash other : String) (j : Nat), Function.update (Function.update (Function.update
      (Function.update (fun _ => none) 0 (some hash)) 0 none) 0 (some other)) 0 none j =
        (none : Option String) := by
    intro hash other j
    by_cases hzero : j = 0
    · simp [hzero]
    · simp [hzero]
  have hpath := Path.next (ChainStep.read (s := ChainState.fresh []) (i := 0) rfl)
    (Path.next (ChainStep.append (i := 0) rfl hfirst)
    (Path.next (ChainStep.read (i := 0) rfl)
    (Path.next (ChainStep.append (i := 0) rfl hsecond)
    (Path.next (ChainStep.drain (i := 0) (idle _ _) rfl)
    (Path.next (ChainStep.commit (i := 0)) Path.stop)))))
  have empty : OneChain [] := by
    intro before other after hsplit
    simp at hsplit
  have hprev := (buildEntry_ok (latestHash_stripped [first])
    (ne_empty_of_length (latestHash_length [first])) hsecond).1
  refine ⟨_, first, second, hpath, rfl, hprev, (auditLog_oneChain_iff empty hpath).mpr ?_⟩
  refine ⟨nofun, nofun, nofun, nofun, nofun, fun _ _ => ⟨rfl, ?_⟩, trivial⟩
  intro row hrow
  rcases List.mem_pair.mp hrow with rfl | rfl
  · exact decide_eq_true (show latestHash [] = latestHash [] from rfl)
  · exact decide_eq_true (show latestHash [first] = latestHash [first] from rfl)

theorem second_genesis_not_chain {first second : AuditEntry}
    (hfirst : first.rowHash.text ≠ Digest.genesis.text)
    (hsecond : second.prevHash.text = Digest.genesis.text) : ¬OneChain [first, second] := by
  intro hchain
  have hlink := hchain [first] second [] rfl
  rw [hsecond] at hlink
  exact hfirst hlink.symm

/-- Two handlings after each other, with one gateway call each, leave two rows at the genesis
hash; so do two calls of one handling that run in parallel. -/
theorem second_row_restarts_chain :
    (∃ path, Path (ChainStep idDigest fun text => ⟨text, 0⟩) (ChainState.fresh []) path ∧
      ¬∀ u ∈ visited (ChainState.fresh []) path, OneChain u.committed) ∧
    ∃ path, Path (ChainStep idDigest fun text => ⟨text, 0⟩) (ChainState.fresh []) path ∧
      (∀ step ∈ path.dropLast, step.1.2 ≠ .commit) ∧
      ¬∀ u ∈ visited (ChainState.fresh []) path, OneChain u.committed := by
  obtain ⟨first, hfirst⟩ := codeDenied_built idDigest (fun text => ⟨text, 0⟩) 1 []
  obtain ⟨second, hsecond⟩ := codeDenied_built idDigest (fun text => ⟨text, 0⟩) 2 []
  have hrow : first.rowHash.text ≠ Digest.genesis.text := by
    obtain ⟨body, hbody⟩ := buildEntry_rowHash hfirst
    rw [hbody]
    exact idDigest_ne_genesis body
  have hprev : second.prevHash.text = Digest.genesis.text :=
    (buildEntry_ok (latestHash_stripped []) (ne_empty_of_length (latestHash_length [])) hsecond).1
  constructor
  · obtain ⟨hpath, hfinal⟩ := oneCallHandling_path [] hfirst
    obtain ⟨hpath', hfinal'⟩ := oneCallHandling_path [first] hsecond
    refine ⟨_, path_append hpath (hfinal ▸ hpath'), fun hall => ?_⟩
    have hlast := hall _ final_mem_visited
    rw [final_append, hfinal] at hlast
    rw [List.nil_append, hfinal'] at hlast
    exact second_genesis_not_chain hrow hprev hlast
  · have idle : ∀ (hash other : String) (j : Nat), Function.update (Function.update (Function.update
        (Function.update (fun _ => none) 0 (some hash)) 1 (some other)) 0 none) 1 none j =
          (none : Option String) := by
      intro hash other j
      by_cases hzero : j = 0
      · simp [hzero]
      · by_cases hone : j = 1
        · simp [hone]
        · simp [hzero, hone]
    have hpath := Path.next (ChainStep.read (s := ChainState.fresh []) (i := 0) rfl)
      (Path.next (ChainStep.read (i := 1) rfl)
      (Path.next (ChainStep.append (i := 0) rfl hfirst)
      (Path.next (ChainStep.append (i := 1) rfl hsecond)
      (Path.next (ChainStep.drain (i := 0) (idle _ _) rfl)
      (Path.next (ChainStep.commit (i := 0)) Path.stop)))))
    refine ⟨_, hpath, ?_, fun hall => ?_⟩
    · intro step hstep
      simp only [List.dropLast, List.mem_cons, List.not_mem_nil, or_false] at hstep
      rcases hstep with rfl | rfl | rfl | rfl | rfl <;> simp
    · exact second_genesis_not_chain hrow hprev (hall _ final_mem_visited)

end Aegis
