/-!
# File-system status codes and responses

`FS::Status` and `FS::Response<V>`: a call returns a status or a value, never
both, which is `Except Status V`.
-/
namespace BadLands.Fs

/-- mirrors kernel/include/fs/Status.hpp:20-39 -/
inductive Status where
  | success | invalidParameter | unsupported | notReady | deviceError | readProtected
  | writeProtected | lockProtected | volumeCorrupted | volumeFull | notFound | alreadyExists
  | unavailable | accessDenied | timeout | aborted | outOfBounds | inUse
  deriving DecidableEq, Repr

/-- mirrors kernel/include/fs/Status.hpp:41-46 -/
abbrev Response (V : Type) := Except Status V

end BadLands.Fs
