import MonetdbAdbc.Status
import MonetdbAdbc.Library.Machine
import MonetdbAdbc.Library.Text

namespace MonetdbAdbc.Sql
open LittleEndian Text

inductive LexState where
  | normal
  | singleQuote
  | escapedSingleQuote
  | rawSingleQuote
  | doubleQuote
  | lineComment
  | blockComment
  deriving DecidableEq, Repr

structure ScannedSlot where
  start : Nat
  stop : Nat
  name : Option (Nat × Nat)
  bareIntegerLiteral : Bool
  deriving DecidableEq, Repr

structure QueryScan where
  statements : List (Nat × Nat)
  slots : List ScannedSlot
  firstKeyword : Option (Nat × Nat)
  hasDataChange : Bool
  deriving DecidableEq, Repr

inductive CreatePrefix where
  | start
  | create
  | or
  | replace
  | modifier
  | procedural
  | other
  deriving DecidableEq, Repr

inductive ProceduralBlock where
  | begin
  | case
  | «if»
  | while
  deriving DecidableEq, Repr

structure ProceduralScan where
  createPrefix : CreatePrefix
  active : Bool
  blocks : List ProceduralBlock
  statementStart : Bool
  afterEnd : Option ProceduralBlock
  deriving DecidableEq, Repr

def isRoutineKeyword (word : Bytes) : Bool := isOneOf word ["function", "procedure", "trigger"]

def isRoutineModifier (word : Bytes) : Bool :=
  isOneOf word ["aggregate", "filter", "loader", "window"]

def terminatesBlock (word : Bytes) : ProceduralBlock → Bool
  | .begin => false
  | .case => isKeyword word "case"
  | .if => isKeyword word "if"
  | .while => isKeyword word "while"

def isBareIntegerKeyword (word : Bytes) : Bool :=
  isOneOf word ["limit", "offset", "sample", "seed"]

namespace ProceduralScan

def new : ProceduralScan := ⟨.start, false, [], true, none⟩

def nextPrefix (word : Bytes) : CreatePrefix → CreatePrefix
  | .start => if isKeyword word "create" then .create else .other
  | .create =>
    if isKeyword word "or" then .or
    else if isRoutineKeyword word then .procedural
    else if isRoutineModifier word then .modifier
    else .other
  | .replace =>
    if isRoutineKeyword word then .procedural
    else if isRoutineModifier word then .modifier
    else .other
  | .or => if isKeyword word "replace" then .replace else .other
  | .modifier => if isKeyword word "function" then .procedural else .other
  | .procedural => .procedural
  | .other => .other

def observeInactive (scan : ProceduralScan) (word : Bytes) : ProceduralScan :=
  let next := nextPrefix word scan.createPrefix
  if next = .procedural ∧ isKeyword word "begin" then
    { scan with
      createPrefix := next, active := true, blocks := .begin :: scan.blocks, statementStart := true }
  else { scan with createPrefix := next }

def observeActive (scan : ProceduralScan) (word : Bytes) : ProceduralScan :=
  if isKeyword word "end" then
    { scan with blocks := scan.blocks.tail, afterEnd := scan.blocks.head?, statementStart := false }
  else if isKeyword word "case" then
    { scan with blocks := .case :: scan.blocks, statementStart := false }
  else if isKeyword word "if" ∧ scan.statementStart then
    { scan with blocks := .if :: scan.blocks, statementStart := false }
  else if isKeyword word "while" then
    { scan with blocks := .while :: scan.blocks, statementStart := false }
  else { scan with statementStart := isOneOf word ["then", "else", "elseif", "do"] }

def observeWord (scan : ProceduralScan) (word : Bytes) : ProceduralScan :=
  if ¬ scan.active then observeInactive scan word
  else if scan.afterEnd.any (terminatesBlock word) then { scan with afterEnd := none }
  else observeActive { scan with afterEnd := none } word

def semicolonIsInternal (scan : ProceduralScan) : Bool := scan.active && !scan.blocks.isEmpty

def passSemicolon (scan : ProceduralScan) : ProceduralScan :=
  { scan with statementStart := true, afterEnd := none }

end ProceduralScan

def isIdentifierStart (b : UInt8) : Bool := isAlphabetic b || b == 95

def isIdentifierContinue (b : UInt8) : Bool := isIdentifierStart b || isDigit b

def continueLength (bs : Bytes) : Nat := (bs.takeWhile isIdentifierContinue).length

inductive Token where
  | semicolon
  | silent
  | slot (named : Bool)
  | code
  | word (text : Bytes)
  deriving DecidableEq, Repr

structure Lexeme where
  token : Token
  length : Nat
  state : LexState
  deriving DecidableEq, Repr

def quoted (state : LexState) (quote current : UInt8) (next : Option UInt8) : Lexeme :=
  if current = quote then
    if next = some quote then ⟨.silent, 2, state⟩ else ⟨.silent, 1, .normal⟩
  else ⟨.silent, charLength current, state⟩

section Lex
variable (isAlphanumeric : Bytes → Bool)

def lexNamed (rest : Bytes) : Except AdbcError Lexeme :=
  let after := rest.drop (continueLength rest)
  if after.head?.any (fun lead => 0x80 ≤ lead && isAlphanumeric (after.take (charLength lead))) then
    .error (adbcError "named parameter identifiers must be ASCII" .invalidArguments)
  else .ok ⟨.slot true, 1 + continueLength rest, .normal⟩

def lexNormal (previous : Option UInt8) (current : UInt8) (rest : Bytes) : Except AdbcError Lexeme :=
  let next := rest.head?
  let third := rest[1]?
  if current = 59 then .ok ⟨.semicolon, 1, .normal⟩
  else if AsciiNumber.isWhitespace current then .ok ⟨.silent, charLength current, .normal⟩
  else if current = 45 ∧ next = some 45 then .ok ⟨.silent, 2, .lineComment⟩
  else if current = 35 then .ok ⟨.silent, 1, .lineComment⟩
  else if current = 47 ∧ next = some 42 then .ok ⟨.silent, 2, .blockComment⟩
  else if current = 63 then .ok ⟨.slot false, 1, .normal⟩
  else if current = 58 ∧ next.any isIdentifierStart ∧ previous ≠ some 58 then
    lexNamed isAlphanumeric rest
  else if current ∈ [114, 82, 120, 88] ∧ next = some 39 then .ok ⟨.code, 2, .rawSingleQuote⟩
  else if current ∈ [101, 69] ∧ next = some 39 then .ok ⟨.code, 2, .escapedSingleQuote⟩
  else if current ∈ [117, 85] ∧ next = some 38 ∧ third = some 39 then
    .ok ⟨.code, 3, .rawSingleQuote⟩
  else if current ∈ [117, 85] ∧ next = some 38 ∧ third = some 34 then .ok ⟨.code, 3, .doubleQuote⟩
  else if current = 39 then .ok ⟨.code, 1, .singleQuote⟩
  else if current = 34 then .ok ⟨.code, 1, .doubleQuote⟩
  else if isIdentifierStart current then
    .ok ⟨.word (current :: rest.takeWhile isIdentifierContinue), 1 + continueLength rest, .normal⟩
  else .ok ⟨.code, charLength current, .normal⟩

def lex (state : LexState) (previous : Option UInt8) (current : UInt8) (rest : Bytes) :
    Except AdbcError Lexeme :=
  let next := rest.head?
  match state with
  | .normal => lexNormal isAlphanumeric previous current rest
  | .singleQuote =>
    if current = 92 ∧ next = some 39 then
      .error (adbcError "backslash-escaped quotes in ordinary SQL strings depend on the server's raw_strings setting; use E'...' or R'...'" .invalidArguments)
    else .ok (quoted .singleQuote 39 current next)
  | .escapedSingleQuote =>
    match current == 92, next with
    | true, some escaped => .ok ⟨.silent, 1 + charLength escaped, .escapedSingleQuote⟩
    | _, _ => .ok (quoted .escapedSingleQuote 39 current next)
  | .rawSingleQuote => .ok (quoted .rawSingleQuote 39 current next)
  | .doubleQuote => .ok (quoted .doubleQuote 34 current next)
  | .lineComment =>
    .ok ⟨.silent, charLength current, if current = 10 then .normal else .lineComment⟩
  | .blockComment =>
    if current = 42 ∧ next = some 47 then .ok ⟨.silent, 2, .normal⟩
    else .ok ⟨.silent, charLength current, .blockComment⟩

end Lex

structure Scan where
  state : LexState
  index : Nat
  statementStart : Nat
  statementHasCode : Bool
  statements : List (Nat × Nat)
  slots : List ScannedSlot
  firstKeyword : Option (Nat × Nat)
  hasDataChange : Bool
  procedural : ProceduralScan
  bareIntegerParameter : Bool
  fetchRowCount : Bool
  deriving DecidableEq, Repr

namespace Scan

def new : Scan := ⟨.normal, 0, 0, false, [], [], none, false, .new, false, false⟩

def addStatement (scan : Scan) (stop : Nat) : List (Nat × Nat) :=
  if scan.statementHasCode then scan.statements ++ [(scan.statementStart, stop)]
  else scan.statements

def observe (scan : Scan) (token : Token) (stop : Nat) : Scan :=
  match token with
  | .semicolon =>
    if scan.procedural.semicolonIsInternal then
      { scan with procedural := scan.procedural.passSemicolon }
    else
      { scan with
        statements := scan.addStatement scan.index, statementStart := scan.index + 1,
        statementHasCode := false, procedural := .new, bareIntegerParameter := false,
        fetchRowCount := false }
  | .silent => scan
  | .slot named =>
    { scan with
      statementHasCode := true,
      slots := scan.slots ++
        [⟨scan.index, stop, if named then some (scan.index + 1, stop) else none,
          scan.bareIntegerParameter⟩],
      bareIntegerParameter := false, fetchRowCount := false }
  | .code =>
    { scan with
      statementHasCode := true, bareIntegerParameter := false, fetchRowCount := false }
  | .word text =>
    { scan with
      statementHasCode := true,
      firstKeyword := scan.firstKeyword.or (some (scan.index, stop)),
      hasDataChange := scan.hasDataChange ||
        isOneOf text ["INSERT", "UPDATE", "DELETE", "MERGE", "TRUNCATE"],
      procedural := scan.procedural.observeWord text,
      bareIntegerParameter := isBareIntegerKeyword text ||
        scan.fetchRowCount && isOneOf text ["first", "next"],
      fetchRowCount := isKeyword text "fetch" }

def advance (scan : Scan) (lexeme : Lexeme) : Scan :=
  let stop := scan.index + lexeme.length
  { scan.observe lexeme.token stop with state := lexeme.state, index := stop }

end Scan

section Loop
variable (isAlphanumeric : Bytes → Bool)

def scanFrom : Scan → Option UInt8 → Nat → Bytes → Except AdbcError Scan
  | scan, _, _, [] => .ok scan
  | scan, _, skip + 1, b :: rest => scanFrom scan (some b) skip rest
  | scan, previous, 0, b :: rest =>
    match lex isAlphanumeric scan.state previous b rest with
    | .error error => .error error
    | .ok lexeme => scanFrom (scan.advance lexeme) (some b) (lexeme.length - 1) rest

def scanQuery (query : Bytes) : Except AdbcError QueryScan := do
  let scan ← scanFrom isAlphanumeric .new none 0 query
  if scan.state = .normal ∨ scan.state = .lineComment then
    .ok ⟨scan.addStatement query.length, scan.slots, scan.firstKeyword, scan.hasDataChange⟩
  else
    .error (adbcError "query contains an unterminated quoted string, identifier, or comment" .invalidArguments)

def slice (query : Bytes) (range : Nat × Nat) : Bytes := (query.take range.2).drop range.1

def statementSlices (query : Bytes) (scan : QueryScan) : Except AdbcError (List Bytes) :=
  if scan.statements.isEmpty then .error (adbcError "SQL query is empty" .invalidArguments)
  else .ok (scan.statements.map fun range => trim (slice query range))

def unboundStatements (query : Bytes) : Except AdbcError (List Bytes) := do
  let scan ← scanQuery isAlphanumeric query
  if !scan.slots.isEmpty then .error (adbcError "parameters are not bound" .invalidState)
  else statementSlices query scan

def parameterizedStatements (query : Bytes) : Except AdbcError (List Bytes) := do
  statementSlices query (← scanQuery isAlphanumeric query)

def statementMayModify (query : Bytes) : Except AdbcError Bool := do
  let scan ← scanQuery isAlphanumeric query
  .ok (scan.hasDataChange ||
    !scan.firstKeyword.any fun range =>
      isOneOf (slice query range) ["SELECT", "WITH", "VALUES", "TABLE", "EXPLAIN", "PLAN", "COMMIT",
        "ROLLBACK", "SAVEPOINT", "RELEASE", "START", "BEGIN"])

variable {isAlphanumeric}

theorem unboundStatements_eq_ok {query : Bytes} {statements : List Bytes} :
    unboundStatements isAlphanumeric query = .ok statements ↔
      ∃ scan, scanQuery isAlphanumeric query = .ok scan ∧ scan.slots = [] ∧ scan.statements ≠ [] ∧
        scan.statements.map (fun range => trim (slice query range)) = statements := by
  refine Machine.bind_eq_ok.trans (exists_congr fun scan => and_congr_right fun _ => ?_)
  rw [statementSlices]
  split_ifs <;> simp_all

end Loop

end MonetdbAdbc.Sql
