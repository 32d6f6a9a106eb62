import OsLabs.Foundation.CText

/-!
# Frames between the processes of the BBS server

In `alg.11-5-socket-server-BBS-3-nickname.c` the process of a connection puts the
connection number in front of what its client sent, in a field of four
characters, and `pipe_data` reads it back with `sscanf`.
-/

namespace OsLabs
namespace Bbs

open Foundation

def bufferSize : Nat := 1024

def nicknameL : Nat := 11

def msgSize : Nat := bufferSize + nicknameL + 4

def maxConnNum : Nat := 10

/-- `memset` to zero and `sprintf` into a buffer of `MSG_SIZE` characters; `none`
if the text does not fit. -/
def sprintfMsg (text : List Char) : Option (List Char) :=
  if text.length < msgSize then some (text ++ List.replicate (msgSize - text.length) nul)
  else none

def formatSn (sn : Int) : List Char :=
  (formatInt sn).leftpad 4 ' '

/-- The frame that `recv_send_data` builds from its `recv_buf`. -/
def recvSendFrame (sn : Int) (recvBuf : List Char) : Option (List Char) :=
  sprintfMsg (formatSn sn ++ cString recvBuf)

/-- The sender that `pipe_data` reads from a frame; `none` if nothing is read. -/
def frameSn (msgBuf : List Char) : Option Int :=
  scanInt 4 (cString msgBuf)

/-- The body that `pipe_data` finds at `msg_buf + 4`. -/
def frameBody (msgBuf : List Char) : List Char :=
  cString (msgBuf.drop 4)

/-!
# What is read back
-/

theorem formatInt_natCast (n : Nat) : formatInt n = Nat.toDigits 10 n := by
  unfold formatInt
  rw [if_neg (by lia), Int.natAbs_natCast]

theorem toDigits_length_of_le {sn : Nat} (hmax : sn ≤ maxConnNum) :
    (Nat.toDigits 10 sn).length ≤ 2 := by
  unfold maxConnNum at hmax
  exact (Nat.length_toDigits_le_iff (by lia) (by lia)).mpr (by lia)

theorem formatSn_length {sn : Nat} (hmax : sn ≤ maxConnNum) :
    (formatSn (sn : Int)).length = 4 := by
  have hlen := toDigits_length_of_le hmax
  unfold formatSn
  rw [formatInt_natCast, List.length_leftpad]
  lia

theorem nul_not_mem_formatSn (sn : Nat) : nul ∉ formatSn (sn : Int) := by
  intro hmem
  unfold formatSn List.leftpad at hmem
  rw [formatInt_natCast] at hmem
  cases List.mem_append.mp hmem with
  | inl hblank =>
      have heq := List.eq_of_mem_replicate hblank
      exact absurd heq (by decide)
  | inr hdigit =>
      have hd := isDigit_of_mem_toDigits_ten hdigit
      exact absurd hd (by decide)

section Decoding

variable {sn : Nat} {text junk : List Char}

def frame (sn : Nat) (text : List Char) : List Char :=
  formatSn sn ++ text ++ List.replicate (msgSize - (formatSn sn ++ text).length) nul

theorem recvSendFrame_eq (hmax : sn ≤ maxConnNum) (htext : nul ∉ text)
    (hlen : text.length < bufferSize) :
    recvSendFrame sn (text ++ nul :: junk) = some (frame sn text) := by
  unfold recvSendFrame sprintfMsg frame
  rw [cString_append htext, if_pos]
  rw [List.length_append, formatSn_length hmax]
  unfold msgSize
  lia

theorem frame_eq (hmax : sn ≤ maxConnNum) (hlen : text.length < bufferSize) :
    frame sn text = formatSn sn ++ text ++
      nul :: List.replicate (msgSize - (formatSn sn ++ text).length - 1) nul := by
  unfold frame
  rw [← List.replicate_succ]
  congr 2
  rw [List.length_append, formatSn_length hmax]
  unfold msgSize
  lia

theorem frameSn_frame (hmax : sn ≤ maxConnNum) (htext : nul ∉ text)
    (hlen : text.length < bufferSize) :
    frameSn (frame sn text) = scanInt 4 ((Nat.toDigits 10 sn).leftpad 4 ' ' ++ text) := by
  unfold frameSn
  rw [frame_eq hmax hlen, cString_append]
  · unfold formatSn
    rw [formatInt_natCast]
  · intro hmem
    cases List.mem_append.mp hmem with
    | inl hsn => exact nul_not_mem_formatSn sn hsn
    | inr hbody => exact htext hbody

theorem frameBody_frame (hmax : sn ≤ maxConnNum) (htext : nul ∉ text)
    (hlen : text.length < bufferSize) : frameBody (frame sn text) = text := by
  unfold frameBody
  rw [frame_eq hmax hlen, List.append_assoc, List.drop_append_of_le_length (by
    rw [formatSn_length hmax])]
  rw [List.drop_of_length_le (by rw [formatSn_length hmax]), List.nil_append]
  exact cString_append htext _

theorem frameSn_iff (hpos : 1 ≤ sn) (hmax : sn ≤ maxConnNum) (htext : nul ∉ text)
    (hlen : text.length < bufferSize) :
    frameSn (frame sn text) = some (sn : Int) <-> startsWithDigit text = false := by
  rw [frameSn_frame hmax htext hlen]
  have hdigits := toDigits_length_of_le hmax
  exact scanInt_leftpad_iff hpos (by lia) text

end Decoding

theorem frame_decodes_exact (sn : Nat) (hpos : 1 ≤ sn) (hmax : sn ≤ maxConnNum)
    (text junk : List Char) (htext : nul ∉ text) (hlen : text.length < bufferSize) :
    exists msgBuf, recvSendFrame sn (text ++ nul :: junk) = some msgBuf ∧
      ((frameSn msgBuf = some (sn : Int) ∧ frameBody msgBuf = text) <->
        startsWithDigit text = false) := by
  refine ⟨frame sn text, recvSendFrame_eq hmax htext hlen, ?_⟩
  rw [and_iff_left (frameBody_frame hmax htext hlen)]
  exact frameSn_iff hpos hmax htext hlen

theorem frame_decodes_exact_greeting :
    startsWithDigit ['h', 'i'] = false ∧
    exists msgBuf, recvSendFrame 10 (['h', 'i'] ++ [nul]) = some msgBuf ∧
      frameSn msgBuf = some 10 ∧ frameBody msgBuf = ['h', 'i'] := by
  refine ⟨rfl, ?_⟩
  rcases frame_decodes_exact 10 (by decide) (by decide) ['h', 'i'] [] (by decide) (by decide) with
    ⟨msgBuf, hframe, hiff⟩
  exact ⟨msgBuf, hframe, hiff.mpr rfl⟩

/-- Client 1 sends `23`; the message is taken for one of connection 123, which is
no index of `sn_attri`. -/
theorem sender_misread :
    exists msgBuf, recvSendFrame 1 (['2', '3'] ++ [nul]) = some msgBuf ∧
      frameSn msgBuf ≠ some 1 ∧ frameSn msgBuf = some 123 ∧ ¬ (123 : Int) ≤ maxConnNum := by
  have hread : frameSn (frame 1 ['2', '3']) = some 123 := by
    rw [frameSn_frame (by decide) (by decide) (by decide)]
    decide
  refine ⟨frame 1 ['2', '3'], recvSendFrame_eq (by decide) (by decide) (by decide), ?_, hread,
    by decide⟩
  rw [hread]
  decide

end Bbs
end OsLabs
