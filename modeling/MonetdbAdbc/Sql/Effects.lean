import MonetdbAdbc.Sql.Scan

namespace MonetdbAdbc.Sql
open LittleEndian Text

inductive BlankMode where
  | blank
  | line
  | opened
  | block
  | closed
  deriving DecidableEq, Repr

def skipBlank : BlankMode → Bytes → Option Bytes
  | .blank, [] => some []
  | .blank, b :: bs =>
    if AsciiNumber.isWhitespace b then skipBlank .blank bs
    else if b = 45 ∧ bs.head? = some 45 then skipBlank .line bs
    else if b = 35 then skipBlank .line bs
    else if b = 47 ∧ bs.head? = some 42 then skipBlank .opened bs
    else some (b :: bs)
  | .line, [] => some []
  | .line, b :: bs => if b = 10 then skipBlank .blank bs else skipBlank .line bs
  | .opened, [] => none
  | .opened, _ :: bs => skipBlank .block bs
  | .block, [] => none
  | .block, b :: bs =>
    if b = 42 ∧ bs.head? = some 47 then skipBlank .closed bs else skipBlank .block bs
  | .closed, [] => none
  | .closed, _ :: bs => skipBlank .blank bs

def isKeywordByte (b : UInt8) : Bool := isAlphabetic b || b == 95

def splitKeyword (query : Bytes) : Option (Bytes × Bytes) := do
  let code ← skipBlank .blank query
  let keyword := code.takeWhile isKeywordByte
  if keyword.isEmpty then none else some (keyword, code.drop keyword.length)

def leadingSqlKeyword (query : Bytes) : Option Bytes := (splitKeyword query).map (·.1)

def isPrepareStatement (query : Bytes) : Bool :=
  (leadingSqlKeyword query).any fun keyword => isKeyword keyword "prepare"

structure TransactionEffects where
  commit : Bool
  rollback : Bool
  deriving DecidableEq, Repr

def TransactionEffects.default : TransactionEffects := ⟨false, false⟩

def rollbackTail : Nat → Bytes → Bool
  | 0, _ => true
  | fuel + 1, remaining =>
    match splitKeyword remaining with
    | none => true
    | some (next, rest) =>
      if isOneOf next ["WORK", "AND", "NO", "CHAIN"] then rollbackTail fuel rest
      else !isKeyword next "to"

def isTransactionRollback (statement : Bytes) : Bool :=
  match splitKeyword statement with
  | none => false
  | some (keyword, rest) => isKeyword keyword "rollback" && rollbackTail rest.length rest

def statementEffects (statement : Bytes) : TransactionEffects :=
  ⟨(leadingSqlKeyword statement).any (isKeyword · "COMMIT"), isTransactionRollback statement⟩

def TransactionEffects.merge (effects other : TransactionEffects) : TransactionEffects :=
  ⟨effects.commit || other.commit, effects.rollback || other.rollback⟩

section Effects
variable (isAlphanumeric : Bytes → Bool)

def transactionEffects (query : Bytes) : Except AdbcError TransactionEffects :=
  if !containsIgnoreCase query (ascii "commit") && !containsIgnoreCase query (ascii "rollback") then
    .ok .default
  else do
    let statements ← unboundStatements isAlphanumeric query
    .ok ((statements.map statementEffects).foldl TransactionEffects.merge .default)

def queryInvalidatesPreparedCache (query : Bytes) : Except AdbcError Bool := do
  let statements ← parameterizedStatements isAlphanumeric query
  .ok (statements.any fun statement =>
    (leadingSqlKeyword statement).any fun keyword =>
      isOneOf keyword ["ALTER", "ANALYZE", "CALL", "COMMENT", "CREATE", "DEALLOCATE", "DROP",
        "GRANT", "RENAME", "REVOKE", "SET", "TRUNCATE"])

end Effects

def preparedRowExecutionNeedsVerification (query : Bytes) : Bool :=
  !(leadingSqlKeyword query).any fun keyword =>
    isOneOf keyword ["INSERT", "UPDATE", "DELETE", "MERGE", "TRUNCATE"]

def normalizePreparedQuery (query : Bytes) : Bytes :=
  trimEnd (trimEndMatches 59 (trim query))

end MonetdbAdbc.Sql
