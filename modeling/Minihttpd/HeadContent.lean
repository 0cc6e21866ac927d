import Minihttpd.ConnectionRuns
import Minihttpd.HeadSearch

/-!
# The head that is extracted

What `connection_handle_read_state` copies out of the read queue, against the
first CRLFCRLF of what the chunks hold together.
-/
namespace HeadContent

open ByteBuffer SystemCalls ChunkQueue ConnectionTypes HttpConnection ReadQueue HeadSearch
open ConnectionRuns Framing FailingRun

section Examined
variable {config : ServerConfig} {conn : Connection}

end Examined

/-- A connection that reads, its queue filled with these strings. -/
def reading (strings : List Bytes) : Connection :=
  { connectionSetDefault with
    state := .read
    readable := true
    readqueue := { chunkqueueInit with
      active := strings.map fun s => { chunkInitialize with mem := bufferCopyString bufferInit s } } }

end HeadContent
