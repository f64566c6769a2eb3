import Mathlib
import VoiceHub.Lib.Percent

/-!
What type an upload is said to have, told from its first bytes: a list of signatures, of which
the first that matches counts.
-/

namespace VoiceHub.Files

open VoiceHub.Lib

def SNIFF_LEN : ℕ := 512

inductive Sig
  /-- a tag, in capitals or not, that a blank or its end follows -/
  | html (h : List UInt8)
  | masked (mask pat : List UInt8) (skipWs : Bool) (ct : String)
  | exact (sig : List UInt8) (ct : String)
  | mp4
  | text

/-- The bytes of an ASCII text. -/
def ascii (s : String) : List UInt8 := Percent.utf8 s.toList

/-- A mask that looks at every one of `n` bytes. -/
def allOf (n : ℕ) : List UInt8 := .replicate n 0xff

/-- A mask that looks at none of `n` bytes. -/
def noneOf (n : ℕ) : List UInt8 := .replicate n 0

def masked (mask pat : List UInt8) (ct : String) : Sig := .masked mask pat false ct

def SIGNATURES : List Sig := [
  .html (ascii "<!DOCTYPE HTML"),
  .html (ascii "<HTML"),
  .html (ascii "<HEAD"),
  .html (ascii "<SCRIPT"),
  .html (ascii "<IFRAME"),
  .html (ascii "<H1"),
  .html (ascii "<DIV"),
  .html (ascii "<FONT"),
  .html (ascii "<TABLE"),
  .html (ascii "<A"),
  .html (ascii "<STYLE"),
  .html (ascii "<TITLE"),
  .html (ascii "<B"),
  .html (ascii "<BODY"),
  .html (ascii "<BR"),
  .html (ascii "<P"),
  .html (ascii "<!--"),
  .masked (allOf 5) (ascii "<?xml") true "text/xml; charset=utf-8",
  .exact (ascii "%PDF-") "application/pdf",
  .exact (ascii "%!PS-Adobe-") "application/postscript",
  masked [0xff, 0xff, 0, 0] [0xfe, 0xff, 0, 0] "text/plain; charset=utf-16be",
  masked [0xff, 0xff, 0, 0] [0xff, 0xfe, 0, 0] "text/plain; charset=utf-16le",
  masked [0xff, 0xff, 0xff, 0] [0xef, 0xbb, 0xbf, 0] "text/plain; charset=utf-8",
  .exact [0, 0, 1, 0] "image/x-icon",
  .exact [0, 0, 2, 0] "image/x-icon",
  .exact (ascii "BM") "image/bmp",
  .exact (ascii "GIF87a") "image/gif",
  .exact (ascii "GIF89a") "image/gif",
  masked (allOf 4 ++ noneOf 4 ++ allOf 6) (ascii "RIFF" ++ noneOf 4 ++ ascii "WEBPVP") "image/webp",
  .exact ([0x89] ++ ascii "PNG" ++ [0x0d, 0x0a, 0x1a, 0x0a]) "image/png",
  .exact [0xff, 0xd8, 0xff] "image/jpeg",
  masked (allOf 4 ++ noneOf 4 ++ allOf 4) (ascii "FORM" ++ noneOf 4 ++ ascii "AIFF") "audio/aiff",
  masked (allOf 3) (ascii "ID3") "audio/mpeg",
  masked (allOf 5) (ascii "OggS" ++ [0]) "application/ogg",
  masked (allOf 8) (ascii "MThd" ++ [0, 0, 0, 6]) "audio/midi",
  masked (allOf 4 ++ noneOf 4 ++ allOf 4) (ascii "RIFF" ++ noneOf 4 ++ ascii "AVI ") "video/avi",
  masked (allOf 4 ++ noneOf 4 ++ allOf 4) (ascii "RIFF" ++ noneOf 4 ++ ascii "WAVE") "audio/wave",
  .mp4,
  .exact [0x1a, 0x45, 0xdf, 0xa3] "video/webm",
  masked (noneOf 34 ++ allOf 2) (noneOf 34 ++ ascii "LP") "application/vnd.ms-fontobject",
  .exact [0, 1, 0, 0] "font/ttf",
  .exact (ascii "OTTO") "font/otf",
  .exact (ascii "ttcf") "font/collection",
  .exact (ascii "wOFF") "font/woff",
  .exact (ascii "wOF2") "font/woff2",
  .exact [0x1f, 0x8b, 0x08] "application/x-gzip",
  .exact (ascii "PK" ++ [3, 4]) "application/zip",
  .exact (ascii "Rar!" ++ [0x1a, 0x07, 0x00]) "application/x-rar-compressed",
  .exact (ascii "Rar!" ++ [0x1a, 0x07, 0x01, 0x00]) "application/x-rar-compressed",
  .exact [0x00, 0x61, 0x73, 0x6d] "application/wasm",
  .text]

def isBlank (b : UInt8) : Bool := [0x09, 0x0a, 0x0c, 0x0d, 0x20].contains b

def isUpper (b : UInt8) : Bool := 0x41 ≤ b && b ≤ 0x5a

/-- A byte that no text has. -/
def isBinary (b : UInt8) : Bool :=
  b ≤ 0x08 || b == 0x0b || (0x0e ≤ b && b ≤ 0x1a) || (0x1c ≤ b && b ≤ 0x1f)

/-- `u32::from_be_bytes`. -/
def beU32 (bytes : List UInt8) : ℕ := bytes.foldl (fun n b => n * 256 + b.toNat) 0

/-- The box names a brand of MP4, at any place but that of the minor version. -/
def mp4Brand (data : List UInt8) : Bool :=
  let boxSize := beU32 (data.take 4)
  12 ≤ data.length && boxSize ≤ data.length && boxSize % 4 == 0 &&
    (data.drop 4).take 4 == ascii "ftyp" &&
    ((List.range boxSize).filter fun st => 8 ≤ st && st % 4 == 0 && st != 12).any fun st =>
      (data.drop st).take 3 == ascii "mp4"

/-- `ws` is where the blanks in front end. -/
def Sig.matches (data : List UInt8) (ws : ℕ) : Sig → Option String
  | .html h =>
    let d := data.drop ws
    if d.length < h.length + 1 then none
    else if ¬ (h.zip d).all (fun p => p.1 == if isUpper p.1 then p.2 &&& 0xdf else p.2) then none
    else if [0x20, 0x3e].contains (d.getD h.length 0) then some "text/html; charset=utf-8"
    else none
  | .masked mask pat skipWs ct =>
    let d := if skipWs then data.drop ws else data
    if d.length < pat.length then none
    else if (pat.zip (d.zip mask)).all (fun p => p.2.1 &&& p.2.2 == p.1) then some ct
    else none
  | .exact sig ct => if sig.isPrefixOf data then some ct else none
  | .mp4 => if mp4Brand data then some "video/mp4" else none
  | .text => if (data.drop ws).any isBinary then none else some "text/plain; charset=utf-8"

def detectContentType (data : List UInt8) : String :=
  let data := data.take SNIFF_LEN
  let ws := (data.takeWhile isBlank).length
  (SIGNATURES.findSome? (Sig.matches data ws)).getD "application/octet-stream"

lemma detectContentType_take (data : List UInt8) :
    detectContentType (data.take SNIFF_LEN) = detectContentType data := by
  rw [detectContentType, List.take_take, Nat.min_self, detectContentType]

end VoiceHub.Files
