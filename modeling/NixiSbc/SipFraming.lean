import NixiSbc.Utf8
import NixiSbc.TextScan

namespace NixiSbc.SipFraming

open ByteWords Utf8 TextScan

def maxSipMessage : Nat := 65535

/-- What one framing attempt finds at the front of a stream buffer. -/
inductive Framing
  | message (stop : Nat)
  | keepalive (count : Nat)
  | incomplete
  | malformed (why : String)
  deriving DecidableEq

def isCrLf (b : UInt8) : Bool := b = 13 ∨ b = 10

def terminator : Bytes := [13, 10, 13, 10]

def isLengthLine (line : List Char) : Bool :=
  let lower := toAsciiLowercase line
  "content-length:".toList.isPrefixOf lower || "l:".toList.isPrefixOf lower

/-- The header loop: the first such line decides, and no line means no body. -/
def scanLength : List (List Char) → Except String Nat
  | [] => .ok 0
  | line :: rest =>
      if isLengthLine line then
        match secondField ':' line with
        | none => .error "Content-Length without a value"
        | some value =>
            match parseUsize (trim value) with
            | some n => .ok n
            | none => .error "Content-Length is not a number"
      else scanLength rest

def frameSipMessage (buffer : Bytes) : Framing :=
  let skip := (buffer.takeWhile isCrLf).length
  if skip > 0 then .keepalive skip
  else
    match findSub terminator buffer with
    | none =>
        if buffer.length > maxSipMessage then
          .malformed "header section over 64 KiB with no terminator"
        else .incomplete
    | some headerEnd =>
        match fromUtf8 (buffer.take headerEnd) with
        | none => .malformed "non-UTF-8 header section"
        | some headers =>
            match scanLength (lines headers) with
            | .error why => .malformed why
            | .ok contentLength =>
                if contentLength > maxSipMessage then .malformed "Content-Length over 64 KiB"
                else if headerEnd + 4 + contentLength ≥ 2 ^ 64 then
                  .malformed "Content-Length overflows the message end"
                else if buffer.length ≥ headerEnd + 4 + contentLength then
                  .message (headerEnd + 4 + contentLength)
                else .incomplete

theorem frame_keepalive {buffer : Bytes} {count : Nat} (h : frameSipMessage buffer = .keepalive count) :
    0 < count ∧ count ≤ buffer.length := by
  rw [frameSipMessage] at h
  split at h
  next hskip =>
    cases h
    exact ⟨hskip, (List.takeWhile_prefix _).length_le⟩
  next => grind

theorem frame_message {buffer : Bytes} {stop : Nat} (h : frameSipMessage buffer = .message stop) :
    ∃ headerEnd headers n, findSub terminator buffer = some headerEnd ∧
      fromUtf8 (buffer.take headerEnd) = some headers ∧ scanLength (lines headers) = .ok n ∧
      n ≤ maxSipMessage ∧ stop = headerEnd + 4 + n ∧ stop ≤ buffer.length := by
  rw [frameSipMessage] at h
  split at h
  · cases h
  · grind

/-- The reader's inner loop: frame until nothing complete is left. Every turn
consumes bytes or leaves the loop. -/
def frameAll (buffer : Bytes) : List Bytes × Except String Bytes :=
  match _h : frameSipMessage buffer with
  | .keepalive count => frameAll (buffer.drop count)
  | .message stop =>
      let r := frameAll (buffer.drop stop)
      (buffer.take stop :: r.1, r.2)
  | .incomplete => ([], .ok buffer)
  | .malformed why => ([], .error why)
termination_by buffer.length
decreasing_by
  · have hc := frame_keepalive _h
    rw [List.length_drop]
    omega
  · obtain ⟨headerEnd, headers, n, -, -, -, -, rfl, hle⟩ := frame_message _h
    rw [List.length_drop]
    omega

/-- The connection loop: append what was read, frame, and stop for good on a
malformed stream. An empty read is the end of the connection. -/
def readChunks : Bytes → List Bytes → List Bytes × Except String Bytes
  | buffer, [] => ([], .ok buffer)
  | buffer, chunk :: chunks =>
      if chunk = [] then ([], .ok buffer)
      else
        match frameAll (buffer ++ chunk) with
        | (messages, .error why) => (messages, .error why)
        | (messages, .ok buffer) =>
            let r := readChunks buffer chunks
            (messages ++ r.1, r.2)

end NixiSbc.SipFraming
