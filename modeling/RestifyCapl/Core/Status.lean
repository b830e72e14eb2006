/-
The status codes every layer returns (core/status.h), with the numbers
CAPL sees. The numbers are part of the contract: an out-parameter such
as `requestStatus` carries the code itself, not the enumerator.
-/
namespace RestifyCapl

inductive Status where
  | ok
  | invalidArgument
  | bufferTooSmall
  | versionResourceUnavailable
  | malformedHeaderBlock
  | unknownHttpMethod
  | unterminatedInputText
  | parseError
  | pathSyntaxError
  | pathNotFound
  | indexOutOfRange
  | typeMismatch
  | nullValue
  | numericOverflow
  | notIntegral
  | networkError
  | timeout
  | tlsError
  | transportInitFailed
  | invalidUrl
  | responseTooLarge
  | requestCancelled
  | noFreeRequestSlot
  | requestNotComplete
  | unknownRequestId
  | waitTimeout
  | asyncStartFailed
  | noFreeDocumentSlot
  | unknownDocumentId
  | documentTooLarge
  | nestingTooDeep
  | tooManyEntries
  | internalError
  | keyTextTooLarge
deriving DecidableEq, Repr

/-- `static_cast<std::int32_t>(status)`. -/
def Status.toInt32 : Status → Int32
  | .ok => 0
  | .invalidArgument => -1
  | .bufferTooSmall => -2
  | .versionResourceUnavailable => -3
  | .malformedHeaderBlock => -4
  | .unknownHttpMethod => -5
  | .unterminatedInputText => -6
  | .parseError => -10
  | .pathSyntaxError => -11
  | .pathNotFound => -12
  | .indexOutOfRange => -13
  | .typeMismatch => -14
  | .nullValue => -15
  | .numericOverflow => -16
  | .notIntegral => -17
  | .networkError => -18
  | .timeout => -19
  | .tlsError => -20
  | .transportInitFailed => -21
  | .invalidUrl => -22
  | .responseTooLarge => -23
  | .requestCancelled => -24
  | .noFreeRequestSlot => -25
  | .requestNotComplete => -26
  | .unknownRequestId => -27
  | .waitTimeout => -28
  | .asyncStartFailed => -29
  | .noFreeDocumentSlot => -30
  | .unknownDocumentId => -31
  | .documentTooLarge => -32
  | .nestingTooDeep => -33
  | .tooManyEntries => -34
  | .internalError => -35
  | .keyTextTooLarge => -36

/-- No two statuses share a code, so a code read from an out-parameter
names its status. -/
theorem Status.toInt32_injective {s t : Status}
    (h : s.toInt32 = t.toInt32) : s = t := by
  revert h
  cases s <;> cases t <;> decide

end RestifyCapl
