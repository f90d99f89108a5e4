import Mathlib.Data.List.Basic

/-!
# Words and dotted sequences of a query

The scan that finds the words of a query.  Words joined by periods are
collected as one sequence, and a word counts as standalone only if it is no
part of one.  A table reference is a name after `FROM`, `JOIN` or a comma of a
`FROM` list; the scan finds each of them, among many other words.
-/

namespace Streamling

namespace TopologySort

/-- The tokens of a query.  Comments are whitespace. -/
inductive Token where
  | word (value : String) (quoted : Bool)
  | period
  | comma
  | leftParen
  | rightParen
  | whitespace
  | other
  deriving DecidableEq, Repr

structure SqlTokens where
  standaloneWords : List String
  dottedSequences : List String
  deriving DecidableEq, Repr

/-- The words and sequences found so far, and the sequence that is being
collected. -/
structure TokenScan where
  standaloneWords : List String
  dottedSequences : List String
  currentParts : List String
  afterPeriod : Bool
  startedAfterPeriod : Bool

namespace TokenScan

def start : TokenScan := ⟨[], [], [], false, false⟩

def flush (s : TokenScan) : TokenScan :=
  match s.currentParts with
  | [] => { s with startedAfterPeriod := false }
  | [part] =>
      if s.startedAfterPeriod then
        -- a field access after a token that is no word, as in `).field`
        { s with currentParts := [], startedAfterPeriod := false }
      else
        { s with
          standaloneWords := s.standaloneWords ++ [part]
          currentParts := []
          startedAfterPeriod := false }
  | parts =>
      { s with
        dottedSequences := s.dottedSequences ++ [".".intercalate parts]
        currentParts := []
        startedAfterPeriod := false }

section Scan

variable (toLowercase : String → String)

def scanToken (s : TokenScan) : Token → TokenScan
  | .period => { s with afterPeriod := true }
  | .word value _ =>
      if s.afterPeriod then
        { s with
          startedAfterPeriod := s.startedAfterPeriod || s.currentParts.isEmpty
          currentParts := s.currentParts ++ [toLowercase value]
          afterPeriod := false }
      else
        { s.flush with currentParts := [toLowercase value] }
  | .whitespace => s
  | _ => { s.flush with afterPeriod := false }

/-- Scan the remaining tokens and flush. -/
def finish (s : TokenScan) (tokens : List Token) : TokenScan :=
  (tokens.foldl (scanToken toLowercase) s).flush

end Scan

end TokenScan

/-- The words and sequences of a query; none if it has no tokens. -/
def extractSqlTokens (toLowercase : String → String) :
    Option (List Token) → SqlTokens
  | none => ⟨[], []⟩
  | some tokens =>
      let s := TokenScan.start.finish toLowercase tokens
      ⟨s.standaloneWords, s.dottedSequences⟩

/-! ## Table references -/

mutual

/-- The parts of the name at the start of the tokens. -/
def tableName : List Token → Option (List String)
  | .whitespace :: rest => tableName rest
  | .word value _ :: rest => (furtherNames rest).map (value :: ·)
  | _ => none

/-- The further parts of a name. -/
def furtherNames : List Token → Option (List String)
  | .whitespace :: rest => furtherNames rest
  | .period :: rest => tableName rest
  | _ => some []

end

/-- The keyword that a word can be. -/
def keyword (toLowercase : String → String) (value : String) (quoted : Bool) :
    String :=
  if quoted then "" else toLowercase value

/-- The keywords that end a `FROM` list. -/
def fromListEnds : List String :=
  ["select", "where", "group", "having", "window", "qualify", "order",
    "limit", "offset", "fetch", "union", "intersect", "except"]

/-- The names at which a query refers to tables: after `FROM` and `JOIN` and
after the commas of a `FROM` list, in parentheses too.  There is one flag for
each open parenthesis, whether its query is in a `FROM` list. -/
def tableReferences (toLowercase : String → String) :
    Bool → List Bool → List Token → List (List String)
  | _, _, [] => []
  | expecting, clauses, .whitespace :: rest =>
      tableReferences toLowercase expecting clauses rest
  | expecting, clauses, .leftParen :: rest =>
      tableReferences toLowercase expecting (false :: clauses) rest
  | _, clauses, .rightParen :: rest =>
      tableReferences toLowercase false clauses.tail rest
  | _, clauses, .comma :: rest =>
      tableReferences toLowercase (clauses.headD false) clauses rest
  | _, clauses, .period :: rest =>
      tableReferences toLowercase false clauses rest
  | _, clauses, .other :: rest =>
      tableReferences toLowercase false clauses rest
  | expecting, clauses, .word value quoted :: rest =>
      if keyword toLowercase value quoted = "from" ∨
          keyword toLowercase value quoted = "join" then
        tableReferences toLowercase true (true :: clauses.tail) rest
      else if keyword toLowercase value quoted ∈ fromListEnds then
        tableReferences toLowercase false (false :: clauses.tail) rest
      else if expecting then
        (tableName (.word value quoted :: rest)).toList ++
          tableReferences toLowercase false clauses rest
      else
        tableReferences toLowercase false clauses rest

theorem ne_nil_of_tableName
    {tokens : List Token} {parts : List String}
    (h : tableName tokens = some parts) :
    parts ≠ [] := by
  induction tokens with
  | nil => simp [tableName] at h
  | cons token rest ih =>
      cases token with
      | whitespace => exact ih h
      | word value quoted =>
          rw [tableName, Option.map_eq_some_iff] at h
          obtain ⟨further, -, rfl⟩ := h
          exact List.cons_ne_nil value further
      | _ => simp [tableName] at h

theorem ne_nil_of_mem_tableReferences
    {toLowercase : String → String} {expecting : Bool} {clauses : List Bool}
    {tokens : List Token} {parts : List String}
    (h : parts ∈ tableReferences toLowercase expecting clauses tokens) :
    parts ≠ [] := by
  induction tokens generalizing expecting clauses with
  | nil => simp [tableReferences] at h
  | cons token rest ih =>
      cases token with
      | word value quoted =>
          simp only [tableReferences] at h
          split_ifs at h
          · exact ih h
          · exact ih h
          · rcases List.mem_append.mp h with hname | h
            · exact ne_nil_of_tableName (Option.mem_toList.mp hname)
            · exact ih h
          · exact ih h
      | _ => exact ih h

/-! ## The scan finds every table reference -/

/-- A sequence of words was found. -/
def TokenScan.Found (s : TokenScan) (parts : List String) : Prop :=
  match parts with
  | [] => True
  | [part] => part ∈ s.standaloneWords
  | parts => ".".intercalate parts ∈ s.dottedSequences

namespace TokenScan

theorem startedAfterPeriod_flush
    (s : TokenScan) :
    s.flush.startedAfterPeriod = false := by
  unfold flush
  split
  · rfl
  · split_ifs <;> rfl
  · rfl

theorem afterPeriod_flush
    (s : TokenScan) :
    s.flush.afterPeriod = s.afterPeriod := by
  unfold flush
  split
  · rfl
  · split_ifs <;> rfl
  · rfl

theorem found_flush
    {s : TokenScan} {parts : List String} (h : s.Found parts) :
    s.flush.Found parts := by
  have hsub : s.standaloneWords ⊆ s.flush.standaloneWords ∧
      s.dottedSequences ⊆ s.flush.dottedSequences := by
    unfold flush
    split
    · simp
    · split_ifs <;> simp
    · simp
  unfold Found at h ⊢
  split at h
  · trivial
  · exact hsub.1 h
  · exact hsub.2 h

/-- Flushing finds the sequence collected, unless it is a single word after a
period. -/
theorem found_flush_currentParts
    {s : TokenScan} (h : s.startedAfterPeriod = false) :
    s.flush.Found s.currentParts := by
  unfold flush Found
  split
  · trivial
  · simp [h]
  · simp

section Scan

variable (toLowercase : String → String)

theorem found_scanToken
    {s : TokenScan} {parts : List String} (h : s.Found parts)
    (token : Token) :
    (scanToken toLowercase s token).Found parts := by
  unfold scanToken
  split
  · exact h
  · split_ifs
    · exact h
    · exact found_flush h
  · exact h
  · exact found_flush h

theorem found_finish
    {s : TokenScan} {parts : List String} (h : s.Found parts)
    (tokens : List Token) :
    (s.finish toLowercase tokens).Found parts := by
  unfold finish
  induction tokens generalizing s with
  | nil => exact found_flush h
  | cons token tokens ih => exact ih (found_scanToken toLowercase h token)

theorem finish_cons
    (s : TokenScan) (token : Token) (tokens : List Token) :
    s.finish toLowercase (token :: tokens) =
      (scanToken toLowercase s token).finish toLowercase tokens :=
  rfl

/-- A token that flushes ends the sequence. -/
theorem found_of_flush
    {s : TokenScan} (hstarted : s.startedAfterPeriod = false) {token : Token}
    (hwords : (scanToken toLowercase s token).standaloneWords =
      s.flush.standaloneWords)
    (hdotted : (scanToken toLowercase s token).dottedSequences =
      s.flush.dottedSequences)
    (rest : List Token) :
    (s.finish toLowercase (token :: rest)).Found s.currentParts := by
  rw [finish_cons]
  refine found_finish toLowercase ?_ rest
  have hfound := found_flush_currentParts hstarted
  unfold Found at hfound ⊢
  rw [hwords, hdotted]
  exact hfound

mutual

/-- The scan continues a sequence after a period. -/
theorem found_of_tableName
    {s : TokenScan} (hperiod : s.afterPeriod = true)
    (hstarted : s.startedAfterPeriod = false) (hparts : s.currentParts ≠ [])
    {more : List String} :
    ∀ tokens, tableName tokens = some more →
      (s.finish toLowercase tokens).Found
        (s.currentParts ++ more.map toLowercase)
  | [], h => by
      simp [tableName] at h
  | .whitespace :: rest, h => by
      rw [tableName] at h
      exact found_of_tableName hperiod hstarted hparts rest h
  | .word value quoted :: rest, h => by
      rw [tableName, Option.map_eq_some_iff] at h
      obtain ⟨further, hfurther, rfl⟩ := h
      have hempty : s.currentParts.isEmpty = false := by
        simpa [List.isEmpty_iff] using hparts
      have hscan : scanToken toLowercase s (.word value quoted) =
          { s with
            startedAfterPeriod := false
            currentParts := s.currentParts ++ [toLowercase value]
            afterPeriod := false } := by
        simp [scanToken, hperiod, hstarted, hempty]
      rw [finish_cons, hscan]
      let scanned : TokenScan :=
        { s with
          startedAfterPeriod := false
          currentParts := s.currentParts ++ [toLowercase value]
          afterPeriod := false }
      have hne : scanned.currentParts ≠ [] := by simp [scanned]
      have hfound :=
        found_of_furtherNames (s := scanned) rfl rfl hne rest hfurther
      simpa [scanned] using hfound
  | .period :: rest, h => by simp [tableName] at h
  | .comma :: rest, h => by simp [tableName] at h
  | .leftParen :: rest, h => by simp [tableName] at h
  | .rightParen :: rest, h => by simp [tableName] at h
  | .other :: rest, h => by simp [tableName] at h

/-- The scan collects the further parts of a name. -/
theorem found_of_furtherNames
    {s : TokenScan} (hperiod : s.afterPeriod = false)
    (hstarted : s.startedAfterPeriod = false) (hparts : s.currentParts ≠ [])
    {more : List String} :
    ∀ tokens, furtherNames tokens = some more →
      (s.finish toLowercase tokens).Found
        (s.currentParts ++ more.map toLowercase)
  | [], h => by
      obtain rfl := Option.some.inj h
      simpa [finish] using found_flush_currentParts hstarted
  | .whitespace :: rest, h => by
      rw [furtherNames] at h
      exact found_of_furtherNames hperiod hstarted hparts rest h
  | .period :: rest, h => by
      rw [furtherNames] at h
      have hscan : scanToken toLowercase s .period =
          { s with afterPeriod := true } := rfl
      rw [finish_cons, hscan]
      exact found_of_tableName (s := { s with afterPeriod := true }) rfl
        hstarted hparts rest h
  | .word value quoted :: rest, h => by
      obtain rfl := Option.some.inj h
      have hscan : scanToken toLowercase s (.word value quoted) =
          { s.flush with currentParts := [toLowercase value] } := by
        simp [scanToken, hperiod]
      rw [List.map_nil, List.append_nil]
      exact found_of_flush toLowercase hstarted (by rw [hscan])
        (by rw [hscan]) rest
  | .comma :: rest, h => by
      obtain rfl := Option.some.inj h
      rw [List.map_nil, List.append_nil]
      exact found_of_flush toLowercase hstarted rfl rfl rest
  | .leftParen :: rest, h => by
      obtain rfl := Option.some.inj h
      rw [List.map_nil, List.append_nil]
      exact found_of_flush toLowercase hstarted rfl rfl rest
  | .rightParen :: rest, h => by
      obtain rfl := Option.some.inj h
      rw [List.map_nil, List.append_nil]
      exact found_of_flush toLowercase hstarted rfl rfl rest
  | .other :: rest, h => by
      obtain rfl := Option.some.inj h
      rw [List.map_nil, List.append_nil]
      exact found_of_flush toLowercase hstarted rfl rfl rest

end

/-- A name that does not follow a period is found. -/
theorem found_word
    {s : TokenScan} (hperiod : s.afterPeriod = false) {value : String}
    {quoted : Bool} {rest : List Token} {parts : List String}
    (h : tableName (.word value quoted :: rest) = some parts) :
    (s.finish toLowercase (.word value quoted :: rest)).Found
      (parts.map toLowercase) := by
  rw [tableName, Option.map_eq_some_iff] at h
  obtain ⟨further, hfurther, rfl⟩ := h
  have hflush := And.intro s.startedAfterPeriod_flush
    (s.afterPeriod_flush.trans hperiod)
  have hscan : scanToken toLowercase s (.word value quoted) =
      { s.flush with currentParts := [toLowercase value] } := by
    simp [scanToken, hperiod]
  rw [finish_cons, hscan, List.map_cons]
  exact found_of_furtherNames toLowercase
    (s := { s.flush with currentParts := [toLowercase value] }) hflush.2
    hflush.1 (List.cons_ne_nil _ _) rest hfurther

theorem afterPeriod_scanToken_word
    (s : TokenScan) (value : String) (quoted : Bool) :
    (scanToken toLowercase s (.word value quoted)).afterPeriod = false := by
  unfold scanToken
  split_ifs with hperiod
  · trivial
  · exact s.afterPeriod_flush.trans (by simpa using hperiod)

/-- Every table reference is found by the scan. -/
theorem found_of_mem_tableReferences
    {expecting : Bool} {clauses : List Bool} {tokens : List Token}
    {parts : List String}
    (h : parts ∈ tableReferences toLowercase expecting clauses tokens)
    {s : TokenScan} (hs : expecting = true → s.afterPeriod = false) :
    (s.finish toLowercase tokens).Found (parts.map toLowercase) := by
  induction tokens generalizing expecting clauses s with
  | nil => simp [tableReferences] at h
  | cons token rest ih =>
      rw [finish_cons]
      cases token with
      | whitespace => exact ih h hs
      | leftParen => exact ih h fun _ => rfl
      | rightParen => exact ih h fun _ => rfl
      | comma => exact ih h fun _ => rfl
      | period => exact ih h nofun
      | other => exact ih h fun _ => rfl
      | word value quoted =>
          have hword := afterPeriod_scanToken_word toLowercase s value quoted
          simp only [tableReferences] at h
          split_ifs at h with hfrom hends hexpecting
          · exact ih h fun _ => hword
          · exact ih h fun _ => hword
          · rcases List.mem_append.mp h with hname | h
            · have hname := Option.mem_toList.mp hname
              rw [← finish_cons]
              exact found_word toLowercase (hs hexpecting) hname
            · exact ih h fun _ => hword
          · exact ih h fun _ => hword

end Scan

end TokenScan

end TopologySort

end Streamling
