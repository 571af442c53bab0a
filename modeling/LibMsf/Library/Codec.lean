import LibMsf.Cxx.Memory

/-!
Message codecs that are generated outside the code under study.

A codec turns a message into bytes and parses bytes into a message; parsing reports
success and leaves a message in either case, because callers may ignore the report.
What is relied on is named per message: `RoundTrips` says that one message survives.
`table` is the codec of finitely many messages with given encodings.
-/

open Cxx

structure Codec (M : Type) where
  serialize : M → Bytes
  parse : Bytes → Bool × M

namespace Codec

variable {M : Type}

def RoundTrips (codec : Codec M) (m : M) : Prop :=
  codec.parse (codec.serialize m) = (true, m)

def table [DecidableEq M] [Inhabited M] (entries : List (M × Bytes)) : Codec M where
  serialize m := ((entries.find? (·.1 = m)).map Prod.snd).getD []
  parse bytes := ((entries.find? (·.2 = bytes)).map fun e => (true, e.1)).getD (false, default)

end Codec
