import Provision.Gather.Error

/-!
# Fetchers

What serves remote documents: a client that asks servers over HTTP, or a shelf that holds documents
in memory.
-/

namespace Provision

/-- What serves remote documents. -/
abbrev Fetcher := String → Except FetchError Bytes

/-! ## Asking servers -/

/-- What a server answers: a status, and a body that may break off. -/
structure Response where
  status : Nat
  body : Except String Bytes

/-- Whether the server says that it has what was asked for. -/
def Response.isSuccess (r : Response) : Bool := 200 ≤ r.status && r.status < 300

/-- What asks servers over HTTP: their answer to a link, or why there is none. -/
abbrev Client := String → Except String Response

/-- The bodies that servers answer with. A status that is no success is an error, whatever comes
with it. -/
def Client.fetch (client : Client) : Fetcher := fun url =>
  match client url with
  | .error why => .error (.http why)
  | .ok response =>
    if response.isSuccess then response.body.mapError .http
    else .error (.status url response.status)

/-- The client that a process can set up, or why it cannot. -/
abbrev Web := Except String Client

/-- The fetcher that is used where none is given. -/
def Web.fetch (web : Web) : Fetcher := fun url =>
  match web with
  | .error why => .error (.http why)
  | .ok client => client.fetch url

/-! ## Documents in memory -/

/-- Remote documents that are held in memory, and the statuses that are answered in the place of
some. -/
structure RemoteShelf where
  bodies : Entries Bytes := []
  statuses : Entries Nat := []

namespace RemoteShelf

/-- The shelf with a body for a link, in the place of an earlier one. -/
def insert (url : String) (body : Bytes) (shelf : RemoteShelf) : RemoteShelf :=
  { shelf with bodies := shelf.bodies.put url body }

/-- The shelf with a status for a link. -/
def refuse (url : String) (code : Nat) (shelf : RemoteShelf) : RemoteShelf :=
  { shelf with statuses := shelf.statuses.put url code }

/-- What the shelf serves. A status comes before a body. -/
def fetch (shelf : RemoteShelf) : Fetcher := fun url =>
  match shelf.statuses.get? url with
  | some code => .error (.status url code)
  | none =>
    match shelf.bodies.get? url with
    | some body => .ok body
    | none => .error (.unavailable url)

end RemoteShelf

end Provision
