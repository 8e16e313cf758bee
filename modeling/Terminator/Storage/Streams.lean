import Terminator.Java.Codec
import Terminator.Storage.FileStorage

/-!
# Object streams

A concrete `ObjectStreams`: a bundle is written field by field, so that nothing that follows it is
read (`ObjectStreams.fields`). It stands in for Java serialization where a file is looked at whose
bytes do not matter.
-/

namespace Terminator.Storage

open Terminator.Java Terminator.Netty

/-- The code of a string. -/
def stringCodec : Codec JString := Codec.word.list

def versionCodec : Codec HttpVersion :=
  (stringCodec.pair (Codec.nat.pair Codec.nat)).via
    (fun v => (v.protocolName, v.majorVersion, v.minorVersion))
    (fun p => some ⟨p.1, p.2.1, p.2.2⟩) fun _ => rfl

def headersCodec : Codec HttpHeaders := (stringCodec.pair stringCodec).list

/-- The code of a buffer: its bytes and its two indices. -/
def bufferCodec : Codec ChannelBuffer :=
  (Codec.byte.list.pair ((Codec.nat.pair Codec.nat).pair Codec.bool)).via
    (fun b => (b.bytes, (b.readerIndex, b.writerIndex), b.hasArray))
    (fun p =>
      if h : p.2.1.1 ≤ p.2.1.2 ∧ p.2.1.2 ≤ p.1.length then
        some ⟨p.1, p.2.1.1, p.2.1.2, p.2.2, h.1, h.2⟩
      else none)
    fun b => dif_pos ⟨b.reader_le_writer, b.writer_le_capacity⟩

def requestCodec : Codec (HttpRequest ChannelBuffer) :=
  ((versionCodec.pair (stringCodec.pair stringCodec)).pair
      (headersCodec.pair (Codec.bool.pair bufferCodec))).via
    (fun r => ((r.version, r.method, r.uri), r.headers, r.chunked, r.content))
    (fun p => some ⟨p.1.1, p.1.2.1, p.1.2.2, p.2.1, p.2.2.1, p.2.2.2⟩) fun _ => rfl

def responseCodec : Codec (HttpResponse ChannelBuffer) :=
  ((versionCodec.pair (Codec.nat.pair stringCodec)).pair
      (headersCodec.pair (Codec.bool.pair bufferCodec))).via
    (fun r => ((r.version, r.status), r.headers, r.chunked, r.content))
    (fun p => some ⟨p.1.1, p.1.2, p.2.1, p.2.2.1, p.2.2.2⟩) fun _ => rfl

def chunkCodec : Codec (HttpChunk ChannelBuffer) :=
  (Codec.bool.pair bufferCodec).via (fun c => (c.last, c.content))
    (fun p => some ⟨p.1, p.2⟩) fun _ => rfl

/-- What kind of message an object is, and the message. -/
def objectCodec : Codec (HttpObject ChannelBuffer) :=
  (requestCodec.option.pair (responseCodec.option.pair chunkCodec.option)).via
    (fun m =>
      match m with
      | .request r => (some r, none, none)
      | .response r => (none, some r, none)
      | .chunk c => (none, none, some c))
    (fun p =>
      (p.1.map .request).or ((p.2.1.map .response).or (p.2.2.map .chunk)))
    fun m => by cases m <;> rfl

def bundleCodec : Codec (RequestResponseBundle ChannelBuffer) :=
  (objectCodec.option.pair objectCodec.option).via (fun b => (b.request, b.response))
    (fun p => some ⟨p.1, p.2⟩) fun _ => rfl

/-- A stream in which a bundle is the code of its fields. -/
def ObjectStreams.fields : ObjectStreams where
  writeObject := bundleCodec.write
  readObject bytes := (bundleCodec.read bytes).map Prod.fst
  read_write b rest := by rw [bundleCodec.read_write, Option.map_some]

/-- A data base that compares texts code unit by code unit. -/
def Collation.binary : Collation where
  equal s t := s == t
  equal_iff _ _ _ _ := beq_iff_eq

/-- Link `linkId`, with its file and its rows. -/
def fileEnv (linkId : Nat) : FileEnv := ⟨linkId, .fields, .binary⟩

end Terminator.Storage
